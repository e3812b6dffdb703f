import UwUGC.Lib.ByteWords
import UwUGC.Plus.PointerIteratorSlots
import Mathlib.Data.List.Basic

/-! The walks of the collector over the pointers of one object, on the bytes of the memory.
Both take the next field from the iterator while they go, and the update writes the fields
that lie behind the iterator. -/

set_option autoImplicit false

namespace UwUGC.Plus

open ByteWords Iteration

def ObjectPtr := { ptr : UInt64 // ptr ≠ 0 }
deriving DecidableEq

namespace ObjectPtr

/-- `NonNull::new`, and the pointer made an object. -/
def fromRaw (raw : UInt64) : Option ObjectPtr := if nonNull : raw ≠ 0 then some ⟨raw, nonNull⟩ else none

def data (object : ObjectPtr) : Nat := object.val.toNat + metadataSize

@[simp] theorem fromRaw_null : fromRaw 0 = none := rfl

@[simp] theorem fromRaw_val (object : ObjectPtr) : fromRaw object.val = some object := dif_pos object.property

@[simp] theorem fromRaw_eq_none {raw : UInt64} : fromRaw raw = none ↔ raw = 0 := by
  unfold fromRaw
  split
  · rename_i nonNull
    exact iff_of_false (Option.some_ne_none _) nonNull
  · rename_i null
    exact iff_of_true rfl (not_not.mp null)

end ObjectPtr

/-- The words of an object's data. -/
def dataWords (bytes : Bytes) (object : ObjectPtr) : Nat → Nat := fun offset => (readWord bytes (object.data + offset)).toNat

section Walks

variable {σ : Type}

/-- A closure that the collector gives: it has a state, and may panic. -/
abbrev Closure (σ α : Type) := StateT σ (Except Panic) α

def visitFields (visitor : ObjectPtr → Closure σ Unit) (bytes : Bytes) (object : ObjectPtr) :
    Nat → PointerIterator → Closure σ Unit
  | 0, _ => pure ()
  | turns + 1, iterator =>
      match iterator.turn with
      | none => pure ()
      | some (none, iterator) => visitFields visitor bytes object turns iterator
      | some (some offset, iterator) => do
          match ObjectPtr.fromRaw (readWord bytes (object.data + offset)) with
          | some current => visitor current
          | none => pure ()
          visitFields visitor bytes object turns iterator

def updateFields (updater : ObjectPtr → Closure σ ObjectPtr) (object : ObjectPtr) :
    Nat → PointerIterator → Bytes → Closure σ Bytes
  | 0, _, bytes => pure bytes
  | turns + 1, iterator, bytes =>
      match iterator.turn with
      | none => pure bytes
      | some (none, iterator) => updateFields updater object turns iterator bytes
      | some (some offset, iterator) =>
          match ObjectPtr.fromRaw (readWord bytes (object.data + offset)) with
          | some current => do
              let updated ← updater current
              updateFields updater object turns iterator (writeWord bytes (object.data + offset) updated.val)
          | none => updateFields updater object turns iterator bytes

namespace Types

def iterateGcPointers (types : Types) (statics : UInt64 → Descriptor) (typeId : UInt64) (bytes : Bytes) (object : ObjectPtr)
    (visitor : ObjectPtr → Closure σ Unit) : Closure σ Bool := do
  match ← types.getType statics typeId with
  | none => pure false
  | some info =>
      let data := dataWords bytes object
      visitFields visitor bytes object (PointerIterator.turns info data) (.fromTypeInfo info data)
      pure true

def updateGcPointers (types : Types) (statics : UInt64 → Descriptor) (typeId : UInt64) (bytes : Bytes) (object : ObjectPtr)
    (updater : ObjectPtr → Closure σ ObjectPtr) : Closure σ (Bool × Bytes) := do
  match ← types.getType statics typeId with
  | none => pure (false, bytes)
  | some info =>
      let data := dataWords bytes object
      let bytes ← updateFields updater object (PointerIterator.turns info data) (.fromTypeInfo info data) bytes
      pure (true, bytes)

end Types

end Walks

/-- The pointers in the slots, in their order; null is none. -/
def pointersIn (bytes : Bytes) (object : ObjectPtr) (slots : List Nat) : List ObjectPtr :=
  slots.filterMap fun slot => ObjectPtr.fromRaw (readWord bytes (object.data + slot))

/-- The slots that are not null. -/
def usedSlots (bytes : Bytes) (object : ObjectPtr) (slots : List Nat) : List Nat :=
  slots.filter fun slot => readWord bytes (object.data + slot) ≠ 0

def storeEach (object : ObjectPtr) : List Nat → List ObjectPtr → Bytes → Bytes
  | slot :: slots, image :: images, bytes => storeEach object slots images (writeWord bytes (object.data + slot) image.val)
  | _, _, bytes => bytes

variable {σ : Type} {bytes later : Bytes} {object : ObjectPtr} {slot turns : Nat} {slots : List Nat} {image : ObjectPtr}
  {images : List ObjectPtr} {iterator : PointerIterator}

section Slots

variable {current : ObjectPtr}

theorem pointersIn_cons_null (null : ObjectPtr.fromRaw (readWord bytes (object.data + slot)) = none) :
    pointersIn bytes object (slot :: slots) = pointersIn bytes object slots :=
  List.filterMap_cons_none null

theorem pointersIn_cons_used (found : ObjectPtr.fromRaw (readWord bytes (object.data + slot)) = some current) :
    pointersIn bytes object (slot :: slots) = current :: pointersIn bytes object slots :=
  List.filterMap_cons_some found

theorem usedSlots_cons_null (null : ObjectPtr.fromRaw (readWord bytes (object.data + slot)) = none) :
    usedSlots bytes object (slot :: slots) = usedSlots bytes object slots := by
  simp [usedSlots, ObjectPtr.fromRaw_eq_none.mp null]

theorem usedSlots_cons_used (found : ObjectPtr.fromRaw (readWord bytes (object.data + slot)) = some current) :
    usedSlots bytes object (slot :: slots) = slot :: usedSlots bytes object slots := by
  have nonNull : readWord bytes (object.data + slot) ≠ 0 := by
    intro null
    rw [ObjectPtr.fromRaw_eq_none.mpr null] at found
    cases found
  simp [usedSlots, nonNull]

theorem usedSlots_congr (same : ∀ slot ∈ slots, readWord later (object.data + slot) = readWord bytes (object.data + slot)) :
    usedSlots later object slots = usedSlots bytes object slots := by
  apply List.filter_congr
  intro slot member
  rw [same slot member]

theorem pointersIn_congr (same : ∀ slot ∈ slots, readWord later (object.data + slot) = readWord bytes (object.data + slot)) :
    pointersIn later object slots = pointersIn bytes object slots := by
  apply List.filterMap_congr
  intro slot member
  rw [same slot member]

end Slots

theorem readWord_write_others (bytes : Bytes) (object image : ObjectPtr) (apart : ∀ other ∈ slots, Apart slot other) :
    ∀ other ∈ slots, readWord (writeWord bytes (object.data + slot) image.val) (object.data + other) =
      readWord bytes (object.data + other) := by
  intro other member
  apply readWord_writeWord_apart
  have separate := apart other member
  simp only [Apart] at separate ⊢
  omega

theorem readWord_storeEach_apart (apart : ∀ other ∈ slots, Apart slot other) :
    readWord (storeEach object slots images bytes) (object.data + slot) = readWord bytes (object.data + slot) := by
  induction slots generalizing images bytes with
  | nil => rfl
  | cons first rest ih =>
      rw [List.forall_mem_cons] at apart
      cases images with
      | nil => rfl
      | cons image images =>
          rw [storeEach, ih apart.2]
          apply readWord_writeWord_apart
          have separate := apart.1
          simp only [Apart] at separate ⊢
          omega

theorem storeEach_outside {address : Nat}
    (outside : ∀ slot ∈ slots, address < object.data + slot ∨ object.data + slot + 8 ≤ address) :
    storeEach object slots images bytes address = bytes address := by
  induction slots generalizing images bytes with
  | nil => rfl
  | cons first rest ih =>
      rw [List.forall_mem_cons] at outside
      cases images with
      | nil => rfl
      | cons image images => rw [storeEach, ih outside.2, writeWord_outside outside.1]

/-- What is stored in the used slots is what a walk finds there afterwards. -/
theorem pointersIn_storeEach (apart : slots.Pairwise Apart) (whole : images.length = (pointersIn bytes object slots).length) :
    pointersIn (storeEach object (usedSlots bytes object slots) images bytes) object slots = images := by
  induction slots generalizing bytes images with
  | nil => exact (List.eq_nil_of_length_eq_zero whole).symm
  | cons slot rest ih =>
      rw [List.pairwise_cons] at apart
      have apartUsed (memory : Bytes) : ∀ other ∈ usedSlots memory object rest, Apart slot other := by
        intro other member
        exact apart.1 other (List.mem_filter.mp member).1
      cases found : ObjectPtr.fromRaw (readWord bytes (object.data + slot)) with
      | none =>
          rw [pointersIn_cons_null found] at whole
          rw [usedSlots_cons_null found, pointersIn_cons_null]
          · exact ih apart.2 whole
          · rwa [readWord_storeEach_apart (apartUsed bytes)]
      | some current =>
          rw [pointersIn_cons_used found, List.length_cons] at whole
          cases images with
          | nil => cases whole
          | cons image images =>
              have others := readWord_write_others bytes object image apart.1
              rw [usedSlots_cons_used found, storeEach, ← usedSlots_congr others]
              have written : ObjectPtr.fromRaw (readWord
                  (storeEach object (usedSlots (writeWord bytes (object.data + slot) image.val) object rest) images
                    (writeWord bytes (object.data + slot) image.val)) (object.data + slot)) = some image := by
                rw [readWord_storeEach_apart (apartUsed _), readWord_writeWord, ObjectPtr.fromRaw_val]
              rw [pointersIn_cons_used written]
              refine congrArg (image :: ·) (ih apart.2 ?_)
              rw [pointersIn_congr others]
              exact Nat.succ.inj whole

/-- The visits of a walk are those of the pointers in its slots, one after the other. -/
theorem visitFields_eq (visitor : ObjectPtr → Closure σ Unit) (iterates : Iterates PointerIterator.turn turns iterator slots) :
    visitFields visitor bytes object turns iterator = (pointersIn bytes object slots).forM visitor := by
  induction iterates with
  | done => rfl
  | @item state next turns offset slots turned _ ih =>
      simp only [visitFields, turned]
      cases found : ObjectPtr.fromRaw (readWord bytes (object.data + offset)) with
      | none =>
          rw [pointersIn_cons_null found]
          exact ih
      | some current =>
          rw [pointersIn_cons_used found]
          exact congrArg (visitor current >>= fun _ => ·) ih
  | silent turned _ ih =>
      simp only [visitFields, turned]
      exact ih

/-- No write of the update reaches a slot that it reads later. -/
theorem updateFields_eq (bytes : Bytes) (object : ObjectPtr) (updater : ObjectPtr → Closure σ ObjectPtr) (iterates : Iterates PointerIterator.turn turns iterator slots)
    (apart : slots.Pairwise Apart) :
    updateFields updater object turns iterator bytes =
      (fun images => storeEach object (usedSlots bytes object slots) images bytes) <$>
        (pointersIn bytes object slots).mapM updater := by
  induction iterates generalizing bytes with
  | done => rfl
  | @item state next turns offset slots turned _ ih =>
      rw [List.pairwise_cons] at apart
      simp only [updateFields, turned]
      cases found : ObjectPtr.fromRaw (readWord bytes (object.data + offset)) with
      | none =>
          rw [usedSlots_cons_null found, pointersIn_cons_null found]
          exact ih _ apart.2
      | some current =>
          rw [usedSlots_cons_used found, pointersIn_cons_used found, List.mapM_cons]
          simp only [map_bind, map_pure]
          refine congrArg (updater current >>= ·) (funext fun updated => ?_)
          have others := readWord_write_others bytes object updated apart.1
          rw [ih _ apart.2, usedSlots_congr others, pointersIn_congr others]
          rfl
  | silent turned _ ih =>
      simp only [updateFields, turned]
      exact ih _ apart

section Length

variable {α β : Type} {closure : α → Closure σ β} {inputs : List α} {results : List β} {before after : σ}

theorem length_mapM (returned : inputs.mapM closure before = .ok (results, after)) : results.length = inputs.length := by
  induction inputs generalizing results before with
  | nil =>
      cases returned
      rfl
  | cons input inputs ih =>
      rw [List.mapM_cons] at returned
      obtain ⟨⟨result, between⟩, _, returned⟩ := bind_eq_ok.mp returned
      obtain ⟨⟨rest, last⟩, restReturned, returned⟩ := bind_eq_ok.mp returned
      cases returned
      exact congrArg Nat.succ (ih restReturned)

end Length

namespace TypeInfo

variable {info : TypeInfo} {data other : Nat → Nat}

theorem iterates_iterPointers (info : TypeInfo) (data : Nat → Nat) :
    Iterates PointerIterator.turn (PointerIterator.turns info data) (.fromTypeInfo info data) (info.iterPointers data) := by
  have exact {slots : List Nat}
      (iterates : Iterates PointerIterator.turn (PointerIterator.turns info data) (.fromTypeInfo info data) slots) :
      Iterates PointerIterator.turn (PointerIterator.turns info data) (.fromTypeInfo info data) (info.iterPointers data) := by
    rwa [iterPointers, drain_iterates iterates]
  cases info with
  | dynamicallyKnown desc => exact exact (iterates_descriptorWalk desc.iterPtrs_iterates)
  | staticallyKnown desc => exact exact (iterates_descriptorWalk desc.iterPtrs_iterates)
  | refArray len => exact exact (iterates_refArray len (Nat.zero_add len))

/-- The slots of an array lie behind its header. -/
theorem header_le {desc : Descriptor} {slot : Nat} (found : info.descriptor = some desc) (array : desc.isArray = true)
    (member : slot ∈ info.iterPointers data) : 8 ≤ slot := by
  have walked : info.iterPointers data = arranged desc (data 0) (desc.seen 0) := by
    have whole := @iterates_descriptorWalk data _ desc _ desc.iterPtrs_iterates
    rw [if_pos array, if_pos array, if_pos array] at whole
    have drained := iterates_iterPointers info data
    cases info with
    | dynamicallyKnown other =>
        cases found
        simp only [PointerIterator.fromTypeInfo, array, if_true] at drained
        exact (whole.unique drained).2
    | staticallyKnown other =>
        cases found
        simp only [PointerIterator.fromTypeInfo, array, if_true] at drained
        exact (whole.unique drained).2
    | refArray len => cases found
  rw [walked] at member
  simp only [arranged, List.mem_flatMap, List.mem_map] at member
  obtain ⟨i, _, offset, _, rfl⟩ := member
  rw [arrayHeaderSize]
  omega

/-- A walk depends on the length of an array, and on no other data. -/
theorem iterPointers_congr (header : ∀ desc, info.descriptor = some desc → desc.isArray = true → other 0 = data 0) :
    info.iterPointers other = info.iterPointers data := by
  cases info with
  | dynamicallyKnown desc =>
      cases array : desc.isArray with
      | false => simp [iterPointers, PointerIterator.turns, PointerIterator.fromTypeInfo, array]
      | true => simp [iterPointers, PointerIterator.turns, PointerIterator.fromTypeInfo, array, header desc rfl array]
  | staticallyKnown desc =>
      cases array : desc.isArray with
      | false => simp [iterPointers, PointerIterator.turns, PointerIterator.fromTypeInfo, array]
      | true => simp [iterPointers, PointerIterator.turns, PointerIterator.fromTypeInfo, array, header desc rfl array]
  | refArray len => rfl

end TypeInfo

namespace Types

variable {types : Types} {statics : UInt64 → Descriptor} {typeId : UInt64} {info : TypeInfo}

theorem iterateGcPointers_eq (known : types.getType statics typeId = .ok (some info)) (visitor : ObjectPtr → Closure σ Unit) :
    types.iterateGcPointers statics typeId bytes object visitor =
      (pointersIn bytes object (info.iterPointers (dataWords bytes object))).forM visitor >>= fun _ => pure true := by
  rw [iterateGcPointers, known]
  exact congrArg (· >>= fun _ => pure true) (visitFields_eq visitor (info.iterates_iterPointers (dataWords bytes object)))

theorem updateGcPointers_eq (known : types.getType statics typeId = .ok (some info)) (updater : ObjectPtr → Closure σ ObjectPtr)
    (apart : (info.iterPointers (dataWords bytes object)).Pairwise Apart) :
    types.updateGcPointers statics typeId bytes object updater =
      (pointersIn bytes object (info.iterPointers (dataWords bytes object))).mapM updater >>= fun images =>
        pure (true, storeEach object (usedSlots bytes object (info.iterPointers (dataWords bytes object))) images bytes) := by
  have walked := updateFields_eq bytes object updater
    (info.iterates_iterPointers (dataWords bytes object)) apart
  rw [updateGcPointers, known]
  refine (congrArg (· >>= fun bytes => pure (true, bytes)) walked).trans ?_
  rw [bind_map_left]

/-- What an update leaves of the memory: the image of each pointer in its place, and every
other byte as it was. -/
structure Updated (types : Types) (statics : UInt64 → Descriptor) (typeId : UInt64) (object : ObjectPtr) (slots : List Nat)
    (bytes later : Bytes) (images : List ObjectPtr) : Prop where
  each : images.length = (pointersIn bytes object slots).length
  nulls : ∀ slot ∈ slots, readWord bytes (object.data + slot) = 0 → readWord later (object.data + slot) = 0
  rest : ∀ address, (∀ slot ∈ usedSlots bytes object slots, address < object.data + slot ∨ object.data + slot + 8 ≤ address) →
    later address = bytes address
  visits : ∀ {σ : Type} (visitor : ObjectPtr → Closure σ Unit),
    types.iterateGcPointers statics typeId later object visitor = images.forM visitor >>= fun _ => pure true

/-- A null slot is apart from the slots that are written. -/
theorem null_kept (apart : slots.Pairwise Apart) (member : slot ∈ slots) (null : readWord bytes (object.data + slot) = 0) :
    readWord (storeEach object (usedSlots bytes object slots) images bytes) (object.data + slot) = 0 := by
  rw [readWord_storeEach_apart, null]
  intro other used
  obtain ⟨inside, nonNull⟩ := List.mem_filter.mp used
  have different : slot ≠ other := by
    rintro rfl
    exact absurd null (of_decide_eq_true nonNull)
  exact apart.forall member inside different

theorem updated (known : types.getType statics typeId = .ok (some info))
    (apart : (info.iterPointers (dataWords bytes object)).Pairwise Apart)
    (whole : images.length = (pointersIn bytes object (info.iterPointers (dataWords bytes object))).length) :
    Updated types statics typeId object (info.iterPointers (dataWords bytes object)) bytes
      (storeEach object (usedSlots bytes object (info.iterPointers (dataWords bytes object))) images bytes) images where
  each := whole
  nulls _ member null := null_kept apart member null
  rest _ outside := storeEach_outside outside
  visits visitor := by
    have header : ∀ desc, info.descriptor = some desc → desc.isArray = true →
        dataWords (storeEach object (usedSlots bytes object (info.iterPointers (dataWords bytes object))) images bytes) object 0 =
          dataWords bytes object 0 := by
      intro desc found array
      apply congrArg UInt64.toNat
      apply readWord_storeEach_apart
      intro slot used
      left
      exact TypeInfo.header_le found array (List.mem_filter.mp used).1
    rw [iterateGcPointers_eq known, TypeInfo.iterPointers_congr header, pointersIn_storeEach apart whole]

/-- Both walks go through the same pointers, and an update changes nothing but them. -/
theorem update_iterate_agree (types : Types) (statics : UInt64 → Descriptor) (typeId : UInt64) (bytes : Bytes) (object : ObjectPtr) :
    (∀ info, types.getType statics typeId = .ok (some info) →
      (info.iterPointers (dataWords bytes object)).Pairwise Apart →
      (∀ {σ : Type} (visitor : ObjectPtr → Closure σ Unit), types.iterateGcPointers statics typeId bytes object visitor =
        (pointersIn bytes object (info.iterPointers (dataWords bytes object))).forM visitor >>= fun _ => pure true) ∧
      ∀ {σ : Type} (updater : ObjectPtr → Closure σ ObjectPtr) (before : σ),
        match (pointersIn bytes object (info.iterPointers (dataWords bytes object))).mapM updater before with
        | .error panic => types.updateGcPointers statics typeId bytes object updater before = .error panic
        | .ok (images, after) => ∃ later,
            types.updateGcPointers statics typeId bytes object updater before = .ok ((true, later), after) ∧
              Updated types statics typeId object (info.iterPointers (dataWords bytes object)) bytes later images) ∧
    (typeId &&& typeTypeMask = 0b10 → types.dynamicTypes typeId = none →
      ∀ {σ : Type} (visitor : ObjectPtr → Closure σ Unit) (updater : ObjectPtr → Closure σ ObjectPtr) (before : σ),
        types.iterateGcPointers statics typeId bytes object visitor before = .ok (false, before) ∧
          types.updateGcPointers statics typeId bytes object updater before = .ok ((false, bytes), before)) := by
  constructor
  · intro info known apart
    refine ⟨fun visitor => iterateGcPointers_eq known visitor, ?_⟩
    intro σ updater before
    rw [updateGcPointers_eq known updater apart]
    cases returned : (pointersIn bytes object (info.iterPointers (dataWords bytes object))).mapM updater before with
    | error panic =>
        change (_ >>= _ : Closure σ _) before = _
        simp only [bind, StateT.bind, returned, Except.bind]
    | ok result =>
        obtain ⟨images, after⟩ := result
        refine ⟨_, ?_, updated known apart (length_mapM returned)⟩
        simp only [bind, StateT.bind, returned, Except.bind]
        rfl
  · intro dynamic absent σ visitor updater before
    have unknown : types.getType statics typeId = .ok none := by
      simp [getType, dynamic, absent]
    rw [iterateGcPointers, updateGcPointers, unknown]
    exact ⟨rfl, rfl⟩

def twoFields : Descriptor := .new [0, 8] 16

/-- An object of that type, with a pointer in its second field. -/
def objectBytes : Bytes := writeWord (fun _ => 0) 1032 2000

def movedObject : ObjectPtr := ⟨3000, by decide⟩

theorem update_iterate_agree_twoFields :
    (∃ later, Types.new.updateGcPointers (fun _ => twoFields) 4 objectBytes ⟨1008, by decide⟩
        (fun _ seen => .ok (movedObject, seen + 1)) 0 = .ok ((true, later), 1) ∧
      readWord later 1024 = 0 ∧
      Types.new.iterateGcPointers (fun _ => twoFields) 4 later ⟨1008, by decide⟩
        (fun current seen => .ok ((), seen ++ [current])) [] = .ok (true, [movedObject])) ∧
    Types.new.iterateGcPointers (fun _ => twoFields) 2 objectBytes ⟨1008, by decide⟩
        (fun current seen => .ok ((), seen ++ [current])) [] = .ok (false, []) := by
  have known := (update_iterate_agree Types.new (fun _ => twoFields) 4 objectBytes ⟨1008, by decide⟩).1
  constructor
  · obtain ⟨later, returned, updated⟩ :=
      (known (.staticallyKnown twoFields) rfl (by decide)).2 (fun _ seen => .ok (movedObject, seen + 1)) 0
    refine ⟨later, returned, updated.nulls 0 (by decide) (by decide), ?_⟩
    rw [updated.visits]
    rfl
  · exact ((update_iterate_agree Types.new (fun _ => twoFields) 2 objectBytes ⟨1008, by decide⟩).2 rfl rfl
      (fun current seen => .ok ((), seen ++ [current])) (fun current seen => .ok (current, seen)) []).1

end Types

end UwUGC.Plus
