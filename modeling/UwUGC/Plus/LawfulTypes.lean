import UwUGC.Gc.CyclePreservation
import UwUGC.Plus.AllocSizes
import UwUGC.Plus.PointerIteratorSlots

/-! The type tables as the type manager that the collector relies on: they keep its contract for
every type whose pointers are words of their own inside the object. -/

set_option autoImplicit false

namespace UwUGC.Plus

namespace TypeInfo

variable {info : TypeInfo} {data other : Nat → Nat} {offsets : List Nat}

/-- The pointers of an object, or of one element of an array, are separate words in it. -/
structure Separated (info : TypeInfo) (offsets : List Nat) : Prop where
  yields : info.Yields offsets
  fits : ∀ desc, info.descriptor = some desc → ∀ offset ∈ offsets, offset + 8 ≤ desc.size
  apart : offsets.Pairwise fun left right => left + 8 ≤ right ∨ right + 8 ≤ left
  short : ∀ len, info = .refArray len → len ≤ 1

theorem Separated.iterPointers_eq (separated : info.Separated offsets) (data : Nat → Nat) :
    info.iterPointers data = info.slots data offsets := by
  apply drain_iterates
  cases info with
  | dynamicallyKnown desc => exact iterates_slots separated.yields nofun
  | staticallyKnown desc => exact iterates_slots separated.yields nofun
  | refArray len =>
      have walked := iterates_refArray len (Nat.zero_add len)
      rcases Nat.le_one_iff_eq_zero_or_eq_one.mp (separated.short len rfl) with rfl | rfl
      · exact walked
      · exact walked

theorem arranged_apart {desc : Descriptor} (len : Nat) (fits : ∀ offset ∈ offsets, offset + 8 ≤ desc.size)
    (apart : offsets.Pairwise fun left right => left + 8 ≤ right ∨ right + 8 ≤ left) :
    (arranged desc len offsets).Pairwise fun left right => left + 8 ≤ right ∨ right + 8 ≤ left := by
  rw [arranged, List.pairwise_flatMap]
  constructor
  · intro i _
    refine List.pairwise_map.mpr (apart.imp ?_)
    omega
  · refine List.pairwise_lt_range.imp ?_
    intro i j before left leftMember right rightMember
    obtain ⟨offset, inside, rfl⟩ := List.mem_map.mp leftMember
    obtain ⟨further, _, rfl⟩ := List.mem_map.mp rightMember
    have fit := fits offset inside
    have stride : (i + 1) * desc.size ≤ j * desc.size := Nat.mul_le_mul_right _ before
    rw [Nat.succ_mul] at stride
    omega

theorem Separated.slots_apart (separated : info.Separated offsets) (data : Nat → Nat) :
    (info.slots data offsets).Pairwise fun left right => left + 8 ≤ right ∨ right + 8 ≤ left := by
  have walk (desc : Descriptor) (found : info.descriptor = some desc) :
      (if desc.isArray then arranged desc (data 0) offsets else offsets).Pairwise
        fun left right => left + 8 ≤ right ∨ right + 8 ≤ left := by
    split
    · exact arranged_apart _ (separated.fits desc found) separated.apart
    · exact separated.apart
  cases info with
  | dynamicallyKnown desc => exact walk desc rfl
  | staticallyKnown desc => exact walk desc rfl
  | refArray len =>
      rw [slots, List.pairwise_map]
      refine List.pairwise_lt_range.imp ?_
      omega

theorem Separated.slots_within (separated : info.Separated offsets) {slot : Nat} (member : slot ∈ info.slots data offsets) :
    slot + 8 ≤ info.getDynamicSize data := by
  cases info with
  | dynamicallyKnown desc => exact descriptorWalk_within (separated.fits desc rfl) member
  | staticallyKnown desc => exact descriptorWalk_within (separated.fits desc rfl) member
  | refArray len =>
      obtain ⟨i, below, rfl⟩ := List.mem_map.mp member
      have inside := List.mem_range.mp below
      simp only [getDynamicSize, getStaticSize]
      omega

/-- The length of an array lies in front of its elements, so what is written to a slot does not change it. -/
theorem length_kept {desc : Descriptor}
    (kept : ∀ offset < arrayHeaderSize + desc.size * data 0, offset ∉ arranged desc (data 0) offsets →
      other offset = data offset) : other 0 = data 0 := by
  refine kept 0 ?_ ?_
  · simp only [arrayHeaderSize]
    omega
  · intro member
    simp only [arranged, arrayHeaderSize, List.mem_flatMap, List.mem_map] at member
    obtain ⟨_, _, _, _, same⟩ := member
    omega

theorem descriptorWalk_kept {desc : Descriptor}
    (kept : ∀ offset < (if desc.isArray then (if desc.isArray then arrayHeaderSize else desc.size) + desc.size * data 0
        else desc.size),
      offset ∉ (if desc.isArray then arranged desc (data 0) offsets else offsets) → other offset = data offset) :
    (if desc.isArray then (if desc.isArray then arrayHeaderSize else desc.size) + desc.size * other 0 else desc.size) =
      (if desc.isArray then (if desc.isArray then arrayHeaderSize else desc.size) + desc.size * data 0 else desc.size) ∧
    (if desc.isArray then arranged desc (other 0) offsets else offsets) =
      if desc.isArray then arranged desc (data 0) offsets else offsets := by
  by_cases array : desc.isArray = true
  · simp only [if_pos array] at kept ⊢
    rw [length_kept kept]
    exact ⟨rfl, rfl⟩
  · simp only [if_neg array, and_self]

theorem slots_kept (kept : ∀ offset < info.getDynamicSize data, offset ∉ info.slots data offsets →
    other offset = data offset) :
    info.getDynamicSize other = info.getDynamicSize data ∧ info.slots other offsets = info.slots data offsets := by
  cases info with
  | dynamicallyKnown desc => exact descriptorWalk_kept kept
  | staticallyKnown desc => exact descriptorWalk_kept kept
  | refArray len => exact ⟨rfl, rfl⟩

end TypeInfo

namespace Types

variable {types : Types} {statics : UInt64 → Descriptor} {typeId : UInt64} {info : TypeInfo} {offsets : List Nat}
  (named : types.getType statics typeId = .ok (some info)) (separated : info.Separated offsets)

include named

theorem typeManager_sized (data : Nat → Nat) :
    (typeManager statics).getDynamicSize types typeId data = .ok (some (info.getDynamicSize data)) := by
  simp [typeManager, getDynamicSize, named, bind, Except.bind]

include separated

theorem typeManager_walked (data : Nat → Nat) :
    (typeManager statics).iterateSlots types typeId data = .ok (some (info.slots data offsets)) := by
  simp [typeManager, iterateSlots, named, separated.iterPointers_eq, bind, Except.bind]

/-- The tables keep the contract for a type whose pointers are separate words. -/
theorem typeManager_lawful : (typeManager statics).Lawful types typeId := by
  have sized := typeManager_sized named
  have walked := typeManager_walked named separated
  constructor
  case within =>
    intro data size slots read iterated slot member
    rw [sized] at read
    rw [walked] at iterated
    cases read
    cases iterated
    exact separated.slots_within member
  case shaped =>
    intro data other size slots read iterated kept
    rw [sized] at read
    rw [walked] at iterated
    cases read
    cases iterated
    obtain ⟨sameSize, sameSlots⟩ := TypeInfo.slots_kept kept
    rw [sized, walked, sameSize, sameSlots]
    exact ⟨rfl, rfl⟩

/-- Wherever an object of the type lies, the collector can walk over it and move it. -/
theorem typeManager_movable {memory : Memory} {obj : Nat}
    (payload : (memory.metadata obj).payload = .notPlainOldData typeId) :
    (typeManager statics).Movable types memory obj (info.getDynamicSize (memory.data obj) + metadataSize)
      (info.slots (memory.data obj) offsets) where
  shape := .typed payload (typeManager_lawful named separated) (typeManager_sized named _)
    (typeManager_walked named separated _)
  same := fun _ _ => rfl
  apart := separated.slots_apart _

end Types

/-- Arrays of two words with a pointer in the second, behind one address. -/
example : (Types.typeManager fun _ => (Descriptor.new [8] 16).toArray).Lawful .new 4096 := by
  have separated : (TypeInfo.staticallyKnown (Descriptor.new [8] 16).toArray).Separated [8] := by
    constructor
    case yields =>
      rintro _ ⟨⟩
      exact ⟨_, Descriptor.iterPtrs_iterates _⟩
    case fits =>
      rintro _ ⟨⟩
      decide
    case apart => exact List.pairwise_singleton ..
    case short =>
      intro len refArray
      cases refArray
  exact Types.typeManager_lawful rfl separated

/-- What a cycle needs of the tables that it has, where every object is plain data or has a
descriptor behind an address. No wipe takes such a descriptor. -/
theorem Types.typesKept {Thread : Type} {statics : UInt64 → Descriptor} {state : Gc.Collector Types Thread}
    {second : PageTable}
    (described : ∀ obj, (state.input (typeManager statics) second).Reachable (typeManager statics) obj → ∀ typeId,
      (state.memory.metadata obj).payload = .notPlainOldData typeId →
      typeId &&& typeTypeMask = 0 ∧ ∃ offsets, (TypeInfo.staticallyKnown (statics typeId)).Separated offsets) :
    state.TypesKept (typeManager statics) second := by
  intro obj reachable size slots shape
  cases shape with
  | plain payload =>
      refine ⟨.plain payload, ?_, .nil⟩
      intro typeId other
      cases payload.symm.trans other
  | @typed typeId _ _ payload _ sized slotted =>
      obtain ⟨tag, offsets, separated⟩ := described obj reachable typeId payload
      have nonnull : typeId ≠ 0 := by
        rintro rfl
        cases sized
      have named (types : Types) : types.getType statics typeId = .ok (some (.staticallyKnown (statics typeId))) := by
        rw [getType_static types tag, if_neg nonnull]
      rw [typeManager_sized (named _)] at sized
      rw [typeManager_walked (named _) separated] at slotted
      cases sized
      cases slotted
      exact typeManager_movable (named _) separated payload

end UwUGC.Plus
