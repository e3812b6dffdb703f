import UwUGC.TypeManager
import Mathlib.Data.List.Nodup

/-! The shape of an object: its size and its pointer slots. It is what a walk over the
heap learns of an object, and it survives what the collector and the mutators do
to one: marking, stores into slots, and being moved. -/

set_option autoImplicit false

namespace UwUGC

namespace TypeManager

variable {Types : Type} {manager : TypeManager Types} {types : Types} {memory later : Memory}
  {obj size : Nat} {slots : List Nat}

inductive Shape (manager : TypeManager Types) (types : Types) (memory : Memory) (obj : Nat) :
    Nat → List Nat → Prop where
  | plain {len : UInt64} (payload : (memory.metadata obj).payload = .plainOldData len) :
      Shape manager types memory obj (len.toNat + metadataSize) []
  | typed {typeId : UInt64} {size : Nat} {slots : List Nat}
      (payload : (memory.metadata obj).payload = .notPlainOldData typeId)
      (lawful : manager.Lawful types typeId)
      (sized : manager.getDynamicSize types typeId (memory.data obj) = .ok (some size))
      (slotted : manager.iterateSlots types typeId (memory.data obj) = .ok (some slots)) :
      Shape manager types memory obj (size + metadataSize) slots

def pointers (memory : Memory) (obj : Nat) (slots : List Nat) : List Nat :=
  (slots.map (memory.data obj)).filter (· ≠ 0)

theorem Shape.getSize_eq (shape : Shape manager types memory obj size slots) :
    manager.getSize types memory obj = .ok size := by
  cases shape with
  | plain payload => simp [getSize, payload]
  | typed payload _ sized => simp [getSize, payload, sized, bind, Except.bind]

theorem Shape.iterate_eq (shape : Shape manager types memory obj size slots) :
    manager.iterateGcPointers types memory obj = .ok (pointers memory obj slots) := by
  cases shape with
  | plain payload => simp [iterateGcPointers, payload, pointers]
  | typed payload _ _ slotted => simp [iterateGcPointers, payload, slotted, pointers, bind, Except.bind]

/-- An object that the collector gets through has a shape. -/
theorem Shape.of_walk {pointed : List Nat} (described : manager.Describes types (memory.metadata obj).payload)
    (sized : manager.getSize types memory obj = .ok size)
    (walked : manager.iterateGcPointers types memory obj = .ok pointed) :
    ∃ slots, Shape manager types memory obj size slots := by
  cases payload : (memory.metadata obj).payload with
  | plainOldData len =>
      simp only [getSize, payload, Except.ok.injEq] at sized
      exact ⟨[], sized ▸ .plain payload⟩
  | notPlainOldData typeId =>
      simp only [getSize, payload, bind_eq_ok, unwrap_eq_ok, Except.ok.injEq] at sized
      simp only [iterateGcPointers, payload, bind_eq_ok, expect_eq_ok, Except.ok.injEq] at walked
      obtain ⟨_, read, _, rfl, rfl⟩ := sized
      obtain ⟨_, iterated, slots, rfl, _⟩ := walked
      rw [payload] at described
      exact ⟨slots, .typed payload described read iterated⟩

theorem Shape.unique {otherSize : Nat} {otherSlots : List Nat}
    (shape : Shape manager types memory obj size slots)
    (other : Shape manager types memory obj otherSize otherSlots) : otherSize = size ∧ otherSlots = slots := by
  cases shape with
  | plain payload =>
      cases other with
      | plain same =>
          rw [payload] at same
          cases same
          exact ⟨rfl, rfl⟩
      | typed same =>
          rw [payload] at same
          cases same
  | typed payload _ sized slotted =>
      cases other with
      | plain same =>
          rw [payload] at same
          cases same
      | typed same _ otherSized otherSlotted =>
          rw [payload] at same
          cases same
          rw [sized] at otherSized
          rw [slotted] at otherSlotted
          cases otherSized
          cases otherSlotted
          exact ⟨rfl, rfl⟩

theorem Shape.slotted {typeId : UInt64} (shape : Shape manager types memory obj size slots)
    (payload : (memory.metadata obj).payload = .notPlainOldData typeId) :
    manager.iterateSlots types typeId (memory.data obj) = .ok (some slots) := by
  cases shape with
  | plain plain =>
      rw [payload] at plain
      cases plain
  | typed typed _ _ slotted =>
      rw [payload] at typed
      cases typed
      exact slotted

theorem Shape.header_le (shape : Shape manager types memory obj size slots) : metadataSize ≤ size := by
  cases shape <;> exact Nat.le_add_left _ _

theorem Shape.slot_within (shape : Shape manager types memory obj size slots)
    {slot : Nat} (member : slot ∈ slots) : metadataSize + slot + 8 ≤ size := by
  cases shape with
  | plain => cases member
  | typed _ lawful sized slotted =>
      have within := lawful.within sized slotted slot member
      omega

/-- An object with the same kind and the same data outside its slots has the same shape,
wherever it lies. -/
theorem Shape.moved (shape : Shape manager types memory obj size slots) {moved : Nat}
    (payload : (later.metadata moved).payload = (memory.metadata obj).payload)
    (kept : ∀ offset, metadataSize + offset < size → offset ∉ slots →
      later.data moved offset = memory.data obj offset) :
    Shape manager types later moved size slots := by
  cases shape with
  | plain plain => exact .plain (payload.trans plain)
  | typed typed lawful sized slotted =>
      obtain ⟨sized', slotted'⟩ := lawful.shaped sized slotted
        fun offset inside outside => kept offset (by omega) outside
      exact .typed (payload.trans typed) lawful sized' slotted'

/-- An object that can be moved: what is updated in it are the slots that are iterated over, and
these are separate words. -/
structure Movable (manager : TypeManager Types) (types : Types) (memory : Memory) (obj size : Nat) (slots : List Nat) :
    Prop where
  shape : Shape manager types memory obj size slots
  same : ∀ typeId, (memory.metadata obj).payload = .notPlainOldData typeId →
    manager.updateSlots types typeId = manager.iterateSlots types typeId
  apart : slots.Pairwise fun left right => left + 8 ≤ right ∨ right + 8 ≤ left

theorem Movable.update_eq (movable : Movable manager types memory obj size slots) (updater : Nat → Except Panic Nat) :
    manager.updateGcPointers types updater memory obj = updateEach updater obj slots memory := by
  have same := movable.same
  cases movable.shape with
  | plain payload => simp [updateGcPointers, payload, updateEach]
  | typed payload _ _ slotted => simp [updateGcPointers, payload, same _ payload, slotted, bind, Except.bind]

theorem Movable.nodup (movable : Movable manager types memory obj size slots) : slots.Nodup := by
  refine movable.apart.imp ?_
  intro left right apart same
  omega

theorem Movable.moved (movable : Movable manager types memory obj size slots) {moved : Nat}
    (payload : (later.metadata moved).payload = (memory.metadata obj).payload)
    (kept : ∀ offset, metadataSize + offset < size → offset ∉ slots →
      later.data moved offset = memory.data obj offset) :
    Movable manager types later moved size slots where
  shape := movable.shape.moved payload kept
  same := by
    rw [payload]
    exact movable.same
  apart := movable.apart

variable {updater : Nat → Except Panic Nat}

/-- Each slot holds what the updater made of it, and nothing else has changed. -/
theorem updateEach_eq_ok (nodup : slots.Nodup) (returned : updateEach updater obj slots memory = .ok later) :
    (∀ slot ∈ slots, if memory.data obj slot = 0 then later.data obj slot = 0
      else updater (memory.data obj slot) = .ok (later.data obj slot)) ∧
    ∀ address, (∀ slot ∈ slots, address ≠ obj + metadataSize + slot) → later address = memory address := by
  induction slots generalizing memory with
  | nil =>
      cases returned
      simp
  | cons first rest ih =>
      obtain ⟨fresh, rested⟩ := List.nodup_cons.mp nodup
      have apart (slot : Nat) (member : slot ∈ rest) :
          obj + metadataSize + first ≠ obj + metadataSize + slot := by
        intro same
        exact fresh (Nat.add_left_cancel same ▸ member)
      unfold updateEach at returned
      simp only at returned
      split at returned
      · next null =>
          obtain ⟨updated, kept⟩ := ih rested returned
          constructor
          · intro slot member
            rcases List.mem_cons.mp member with same | later
            · subst same
              rw [if_pos null]
              exact (kept _ apart).trans null
            · exact updated slot later
          · intro address outside
            exact kept address fun slot member => outside slot (List.mem_cons_of_mem _ member)
      · next pointer =>
          obtain ⟨value, mapped, walked⟩ := bind_eq_ok.mp returned
          obtain ⟨updated, kept⟩ := ih rested walked
          constructor
          · intro slot member
            rcases List.mem_cons.mp member with same | later
            · subst same
              rw [if_neg pointer, mapped, Memory.data, kept _ apart, Function.update_self]
            · have untouched : Memory.data (Function.update memory (obj + metadataSize + first) value) obj slot =
                  memory.data obj slot :=
                Function.update_of_ne (apart slot later).symm _ _
              have result := updated slot later
              rwa [untouched] at result
          · intro address outside
            rw [kept address fun slot member => outside slot (List.mem_cons_of_mem _ member)]
            exact Function.update_of_ne (outside first List.mem_cons_self) _ _

theorem updateEach_returns (nodup : slots.Nodup)
    (mapped : ∀ slot ∈ slots, memory.data obj slot ≠ 0 → ∃ value, updater (memory.data obj slot) = .ok value) :
    ∃ final, updateEach updater obj slots memory = .ok final := by
  induction slots generalizing memory with
  | nil => exact ⟨memory, rfl⟩
  | cons first rest ih =>
      obtain ⟨fresh, rested⟩ := List.nodup_cons.mp nodup
      unfold updateEach
      simp only
      split
      · exact ih rested fun slot member => mapped slot (List.mem_cons_of_mem _ member)
      · next pointer =>
          obtain ⟨value, updated⟩ := mapped first List.mem_cons_self pointer
          rw [updated]
          refine ih rested ?_
          intro slot member
          have apart : obj + metadataSize + slot ≠ obj + metadataSize + first := by
            intro same
            exact fresh (Nat.add_left_cancel same ▸ member)
          rw [show Memory.data (Function.update memory (obj + metadataSize + first) value) obj slot =
            memory.data obj slot from Function.update_of_ne apart _ _]
          exact mapped slot (List.mem_cons_of_mem _ member)

/-- A manager of pointer arrays: the type id is the number of pointers. -/
def pointerArrays : TypeManager Unit where
  assumeAllDead := id
  setAlive := fun types _ => (true, types)
  wipeDeads := id
  iterateSlots := fun _ typeId _ => .ok (some ((List.range typeId.toNat).map (8 * ·)))
  updateSlots := fun _ typeId _ => .ok (some ((List.range typeId.toNat).map (8 * ·)))
  getStaticSize := fun _ typeId => .ok (some (8 * typeId.toNat))
  getDynamicSize := fun _ typeId _ => .ok (some (8 * typeId.toNat))

theorem pointerArrays_lawful (typeId : UInt64) : pointerArrays.Lawful () typeId where
  within := by
    intro data size slots sized iterated slot member
    cases sized
    cases iterated
    obtain ⟨index, inside, rfl⟩ := List.mem_map.mp member
    have := List.mem_range.mp inside
    omega
  shaped := by
    intro data other size slots sized iterated _
    exact ⟨sized, iterated⟩

theorem pointerArrays_movable (shape : Shape pointerArrays () memory obj size slots) :
    Movable pointerArrays () memory obj size slots where
  shape := shape
  same := fun _ _ => rfl
  apart := by
    cases shape with
    | plain => exact .nil
    | typed _ _ _ slotted =>
        cases slotted
        rw [List.pairwise_map]
        refine List.pairwise_lt_range.imp ?_
        intro left right before
        omega

theorem pointerArrays_describes (kind : MetadataEnum) : pointerArrays.Describes () kind := by
  cases kind with
  | plainOldData => trivial
  | notPlainOldData typeId => exact pointerArrays_lawful typeId

end TypeManager

end UwUGC
