import UwUGC.Plus.DescriptorPointers
import UwUGC.Plus.PointerIterator

/-! The slots that a walk over one object goes through. A walk over an array starts the walk over
its descriptor again for each element. -/

set_option autoImplicit false

namespace UwUGC.Plus

open Iteration

/-- The turns that the model gives to an iterator are those that it takes. -/
theorem drain_iterates {σ : Type} {turn : σ → Option (Option Nat × σ)} {turns : Nat} {state : σ} {items : List Nat}
    (iterates : Iterates turn turns state items) : drain turn turns state = items := by
  induction iterates with
  | done => rfl
  | item turned _ ih => simp only [drain, turned, ih]
  | silent turned _ ih => simp only [drain, turned, ih]

namespace TypeInfo

def descriptor : TypeInfo → Option Descriptor
  | dynamicallyKnown desc => some desc
  | staticallyKnown desc => some desc
  | refArray _ => none

/-- The offsets that `iter_ptrs` returns for the descriptor, where there is one. -/
def Yields (info : TypeInfo) (offsets : List Nat) : Prop :=
  ∀ desc, info.descriptor = some desc → ∃ turns, Iterates PointerIter.turn turns desc.iterPtrs offsets

/-- The slots of one element behind the other. -/
def arranged (desc : Descriptor) (len : Nat) (offsets : List Nat) : List Nat :=
  (List.range len).flatMap fun i => offsets.map fun offset => arrayHeaderSize + i * desc.size + offset

/-- Where the pointers of an object are, as offsets into its data. -/
def slots (info : TypeInfo) (data : Nat → Nat) (offsets : List Nat) : List Nat :=
  match info with
  | dynamicallyKnown desc => if desc.isArray then arranged desc (data 0) offsets else offsets
  | staticallyKnown desc => if desc.isArray then arranged desc (data 0) offsets else offsets
  | refArray len => (List.range len).map (8 * ·)

/-- The walk goes through the slots of the object, and stays in it. -/
structure Covers (info : TypeInfo) (data : Nat → Nat) : Prop where
  exact : ∀ offsets, info.Yields offsets →
    ∃ turns, Iterates PointerIterator.turn turns (.fromTypeInfo info data) (info.slots data offsets)
  inside : ∀ offsets turns slots, info.Yields offsets →
    (∀ desc, info.descriptor = some desc → ∀ offset ∈ offsets, offset + 8 ≤ desc.size) →
    Iterates PointerIterator.turn turns (.fromTypeInfo info data) slots →
    ∀ slot ∈ slots, slot + 8 ≤ info.getDynamicSize data

end TypeInfo

section Array

variable {desc : Descriptor} {len current turns more : Nat} {iter : PointerIter} {offsets items : List Nat}

theorem iterates_element (below : current < len) (iterates : Iterates PointerIter.turn turns iter offsets)
    (rest : Iterates ArrayIter.turn more ⟨desc, len, current + 1, desc.iterPtrs⟩ items) :
    Iterates ArrayIter.turn (turns + (1 + more)) ⟨desc, len, current, iter⟩
      (offsets.map (fun offset => arrayHeaderSize + current * desc.size + offset) ++ items) := by
  have inside : ¬ current ≥ len := Nat.not_le.mpr below
  induction iterates with
  | done ended =>
      rw [Nat.zero_add, Nat.add_comm]
      refine .silent ?_ rest
      simp [ArrayIter.turn, inside, ended]
  | item turned _ ih =>
      rw [Nat.succ_add]
      refine .item ?_ ih
      simp only [ArrayIter.turn, if_neg inside, turned]
      congr 3
      omega
  | silent turned _ ih =>
      rw [Nat.succ_add]
      refine .silent ?_ ih
      simp [ArrayIter.turn, inside, turned]

theorem iterates_elements (iterates : Iterates PointerIter.turn turns desc.iterPtrs offsets) (remaining : Nat)
    (behind : current + remaining = len) :
    Iterates ArrayIter.turn (remaining * (turns + 1)) ⟨desc, len, current, desc.iterPtrs⟩
      ((List.range' current remaining).flatMap fun i =>
        offsets.map fun offset => arrayHeaderSize + i * desc.size + offset) := by
  induction remaining generalizing current with
  | zero =>
      rw [Nat.zero_mul, List.range'_zero, List.flatMap_nil]
      apply Iterates.done
      simp only [ArrayIter.turn, ge_iff_le, ite_eq_left_iff, Nat.not_le]
      intro below
      omega
  | succ remaining ih =>
      have rest := ih (show current + 1 + remaining = len by omega)
      have first := iterates_element (by omega) iterates rest
      rw [List.range'_succ, List.flatMap_cons]
      have count : turns + (1 + remaining * (turns + 1)) = (remaining + 1) * (turns + 1) := by
        rw [Nat.succ_mul]
        omega
      rwa [count] at first

end Array

/-- A reference array is walked in steps of one byte. -/
theorem iterates_refArray {len next : Nat} (remaining : Nat) (behind : next + remaining = len) :
    Iterates PointerIterator.turn remaining (.refArray next len) (List.range' next remaining) := by
  induction remaining generalizing next with
  | zero =>
      apply Iterates.done
      have ended : ¬ next < len := by omega
      simp [PointerIterator.turn, ended]
  | succ remaining ih =>
      have more : next < len := by omega
      rw [List.range'_succ]
      refine .item ?_ (ih (by omega))
      simp [PointerIterator.turn, more]

namespace TypeInfo

variable {info : TypeInfo} {data : Nat → Nat} {offsets : List Nat}

theorem iterates_descriptorWalk {desc : Descriptor} {turns : Nat}
    (iterates : Iterates PointerIter.turn turns desc.iterPtrs offsets) :
    Iterates PointerIterator.turn (if desc.isArray then data 0 * (turns + 1) else turns)
      (if desc.isArray then .array ⟨desc, data 0, 0, desc.iterPtrs⟩ else .normalIterator desc.iterPtrs)
      (if desc.isArray then arranged desc (data 0) offsets else offsets) := by
  split
  · have whole := iterates_elements iterates (data 0) (Nat.zero_add (data 0))
    rw [← List.range_eq_range'] at whole
    exact whole.embed fun _ => rfl
  · exact iterates.embed fun _ => rfl

theorem iterates_slots (yields : info.Yields offsets) (other : ∀ len, info ≠ .refArray len) :
    Iterates PointerIterator.turn (PointerIterator.turns info data) (.fromTypeInfo info data) (info.slots data offsets) := by
  have walk (desc : Descriptor) (found : info.descriptor = some desc) :
      Iterates PointerIter.turn desc.turns desc.iterPtrs offsets := by
    obtain ⟨turns, iterates⟩ := yields desc found
    rwa [← (iterates.unique desc.iterPtrs_iterates).1] at iterates
  cases info with
  | dynamicallyKnown desc => exact iterates_descriptorWalk (walk desc rfl)
  | staticallyKnown desc => exact iterates_descriptorWalk (walk desc rfl)
  | refArray len => exact absurd rfl (other len)

/-- An element ends where the next one starts. -/
theorem arranged_within {desc : Descriptor} {len slot : Nat} (fits : ∀ offset ∈ offsets, offset + 8 ≤ desc.size)
    (member : slot ∈ arranged desc len offsets) : slot + 8 ≤ arrayHeaderSize + desc.size * len := by
  simp only [arranged, List.mem_flatMap, List.mem_range, List.mem_map] at member
  obtain ⟨i, below, offset, inside, rfl⟩ := member
  have fit := fits offset inside
  have stride : (i + 1) * desc.size ≤ len * desc.size := Nat.mul_le_mul_right _ below
  rw [Nat.succ_mul, Nat.mul_comm len] at stride
  omega

theorem descriptorWalk_within {desc : Descriptor} {slot : Nat} (fits : ∀ offset ∈ offsets, offset + 8 ≤ desc.size)
    (member : slot ∈ if desc.isArray then arranged desc (data 0) offsets else offsets) :
    slot + 8 ≤ if desc.isArray then (if desc.isArray then arrayHeaderSize else desc.size) + desc.size * data 0
      else desc.size := by
  cases array : desc.isArray with
  | true =>
      rw [array] at member
      simpa using arranged_within fits member
  | false =>
      rw [array] at member
      exact fits slot member

/-- What is walked stays in the object, for every shape of iteration. -/
theorem walk_inside {turns slot : Nat} {walked : List Nat} (yields : info.Yields offsets)
    (fits : ∀ desc, info.descriptor = some desc → ∀ offset ∈ offsets, offset + 8 ≤ desc.size)
    (iterates : Iterates PointerIterator.turn turns (.fromTypeInfo info data) walked) (member : slot ∈ walked) :
    slot + 8 ≤ info.getDynamicSize data := by
  cases info with
  | dynamicallyKnown desc =>
      have same := (iterates_slots yields nofun).unique iterates
      rw [same.2] at member
      exact descriptorWalk_within (fits desc rfl) member
  | staticallyKnown desc =>
      have same := (iterates_slots yields nofun).unique iterates
      rw [same.2] at member
      exact descriptorWalk_within (fits desc rfl) member
  | refArray len =>
      have same := (iterates_refArray len (Nat.zero_add len)).unique iterates
      rw [same.2, List.mem_range'_1] at member
      simp only [getDynamicSize, getStaticSize]
      omega

/-- An object lies in memory, an array with its length and its elements, so no offset of a walk wraps around. -/
theorem walk_word {turns slot : Nat} {walked : List Nat} (valid : info.getDynamicSize data < 2 ^ 64)
    (yields : info.Yields offsets)
    (fits : ∀ desc, info.descriptor = some desc → ∀ offset ∈ offsets, offset + 8 ≤ desc.size)
    (iterates : Iterates PointerIterator.turn turns (.fromTypeInfo info data) walked) (member : slot ∈ walked) :
    slot < 2 ^ 64 := by
  have inside := walk_inside yields fits iterates member
  omega

/-- A walk covers an object exactly when it is no reference array of two or more. -/
theorem covers_iff (info : TypeInfo) (data : Nat → Nat) :
    info.Covers data ↔ ∀ len, info = .refArray len → len ≤ 1 := by
  constructor
  · intro covers len array
    subst array
    obtain ⟨_, iterates⟩ := covers.exact [] nofun
    have same := ((iterates_refArray len (Nat.zero_add len)).unique iterates).2
    by_contra large
    have second : (slots (.refArray len) data [])[1]? = (List.range' 0 len)[1]? := by rw [same]
    simp [slots, Nat.not_le.mp large] at second
  · intro short
    refine ⟨?_, fun offsets turns walked yields fits iterates slot => walk_inside yields fits iterates⟩
    intro offsets yields
    cases info with
    | dynamicallyKnown desc => exact ⟨_, iterates_slots yields nofun⟩
    | staticallyKnown desc => exact ⟨_, iterates_slots yields nofun⟩
    | refArray len =>
        have walked := iterates_refArray len (Nat.zero_add len)
        have bound := short len rfl
        refine ⟨len, ?_⟩
        rcases Nat.le_one_iff_eq_zero_or_eq_one.mp bound with rfl | rfl
        · exact walked
        · exact walked

/-- The second reference of an array is looked for one byte behind the first. -/
theorem refArray_steps_bytes :
    (∃ turns, Iterates PointerIterator.turn turns (.fromTypeInfo (.refArray 2) fun _ => 0) [0, 1]) ∧
      ¬ (refArray 2).Covers fun _ => 0 := by
  refine ⟨⟨2, iterates_refArray 2 rfl⟩, ?_⟩
  intro covers
  obtain ⟨_, iterates⟩ := covers.exact [] nofun
  cases ((iterates_refArray 2 (Nat.zero_add 2)).unique iterates).2

end TypeInfo

end UwUGC.Plus
