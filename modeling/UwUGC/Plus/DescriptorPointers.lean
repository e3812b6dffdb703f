import UwUGC.Lib.Iteration
import UwUGC.Plus.Descriptor

/-! What the explicit stack of `PointerIter` makes of a descriptor. A nested descriptor is
pushed with its own offset as its base; the base of the one it lies in is not added. -/

set_option autoImplicit false

namespace UwUGC.Plus

open Iteration

mutual

/-- The pointers of a descriptor and of all that lies inside it. -/
def Descriptor.flat : Descriptor → List Nat
  | .mk fields unflattened _ _ => fields ++ Descriptor.flatOfChilds unflattened

def Descriptor.flatOfChilds : List (Nat × Descriptor) → List Nat
  | [] => []
  | (offset, child) :: rest => child.flat.map (offset + ·) ++ Descriptor.flatOfChilds rest

end

mutual

/-- The offsets that the iteration returns for a descriptor that is pushed with a base. -/
def Descriptor.seen (base : Nat) : Descriptor → List Nat
  | .mk fields unflattened _ _ => fields.map (base + ·) ++ Descriptor.seenOfChilds unflattened

def Descriptor.seenOfChilds : List (Nat × Descriptor) → List Nat
  | [] => []
  | (offset, child) :: rest => child.seen offset ++ Descriptor.seenOfChilds rest

end

mutual

/-- Each descriptor with fields of its own lies directly in one that starts where the whole
does; `outer` is where the one around this starts, and `base` the offset in it. -/
def Descriptor.Grounded (outer base : Nat) : Descriptor → Prop
  | .mk fields unflattened _ _ => (fields = [] ∨ outer = 0) ∧ Descriptor.GroundedChilds (outer + base) unflattened

def Descriptor.GroundedChilds (outer : Nat) : List (Nat × Descriptor) → Prop
  | [] => True
  | (offset, child) :: rest => child.Grounded outer offset ∧ Descriptor.GroundedChilds outer rest

end

theorem iterates_fields {childs : List (Nat × Descriptor)} {below : List CurrentDescriptor} {items : List Nat}
    {turns : Nat} (base : Nat) (fields : List Nat)
    (rest : Iterates PointerIter.turn turns ⟨⟨base, [], childs⟩ :: below⟩ items) :
    Iterates PointerIter.turn (fields.length + turns) ⟨⟨base, fields, childs⟩ :: below⟩
      (fields.map (base + ·) ++ items) := by
  induction fields with
  | nil =>
      rw [List.length_nil, Nat.zero_add]
      exact rest
  | cons field fields ih =>
      rw [List.length_cons, Nat.succ_add]
      exact .item rfl ih

mutual

theorem iterates_descriptor (descriptor : Descriptor) (base : Nat) {below : List CurrentDescriptor}
    {items : List Nat} {turns : Nat} (rest : Iterates PointerIter.turn turns ⟨below⟩ items) :
    Iterates PointerIter.turn (descriptor.turns + turns)
      ⟨⟨base, descriptor.fields, descriptor.unflattened⟩ :: below⟩ (descriptor.seen base ++ items) := by
  match descriptor with
  | .mk fields unflattened size isArray =>
      rw [Descriptor.turns, Descriptor.seen, List.append_assoc, Nat.add_assoc, Nat.add_assoc]
      exact iterates_fields base fields (iterates_childs unflattened base rest)

theorem iterates_childs (childs : List (Nat × Descriptor)) (base : Nat) {below : List CurrentDescriptor}
    {items : List Nat} {turns : Nat} (rest : Iterates PointerIter.turn turns ⟨below⟩ items) :
    Iterates PointerIter.turn (Descriptor.turnsOfChilds childs + (1 + turns)) ⟨⟨base, [], childs⟩ :: below⟩
      (Descriptor.seenOfChilds childs ++ items) := by
  match childs with
  | [] =>
      have popped : Iterates PointerIter.turn (turns + 1) ⟨⟨base, [], []⟩ :: below⟩ items := .silent rfl rest
      simpa [Descriptor.turnsOfChilds, Descriptor.seenOfChilds, Nat.add_comm] using popped
  | (offset, child) :: childs =>
      have resumed := iterates_childs childs base rest
      have nested := iterates_descriptor child offset resumed
      have pushed : Iterates PointerIter.turn _ ⟨⟨base, [], (offset, child) :: childs⟩ :: below⟩ _ := .silent rfl nested
      have count : child.turns + (Descriptor.turnsOfChilds childs + (1 + turns)) + 1 =
          Descriptor.turnsOfChilds ((offset, child) :: childs) + (1 + turns) := by
        simp only [Descriptor.turnsOfChilds]
        omega
      rwa [count, ← List.append_assoc] at pushed

end

/-- The iteration comes to its end for every descriptor. -/
theorem Descriptor.iterPtrs_iterates (descriptor : Descriptor) :
    Iterates PointerIter.turn descriptor.turns descriptor.iterPtrs (descriptor.seen 0) := by
  have ended : Iterates PointerIter.turn 0 ⟨[]⟩ [] := .done rfl
  have whole := iterates_descriptor descriptor 0 ended
  rwa [List.append_nil, Nat.add_zero] at whole

mutual

theorem Descriptor.length_seen (descriptor : Descriptor) (base : Nat) :
    (descriptor.seen base).length = descriptor.flat.length := by
  match descriptor with
  | .mk fields unflattened size isArray =>
      simp only [Descriptor.seen, Descriptor.flat, List.length_append, List.length_map, length_seenOfChilds unflattened]

theorem Descriptor.length_seenOfChilds (childs : List (Nat × Descriptor)) :
    (seenOfChilds childs).length = (flatOfChilds childs).length := by
  match childs with
  | [] => rfl
  | (offset, child) :: rest =>
      simp only [seenOfChilds, flatOfChilds, List.length_append, List.length_map, child.length_seen offset,
        length_seenOfChilds rest]

end

theorem append_eq_append_iff_of_length {left right front back : List Nat} (length : left.length = front.length) :
    left ++ right = front ++ back ↔ left = front ∧ right = back := by
  constructor
  · exact fun same => List.append_inj same length
  · rintro ⟨rfl, rfl⟩
    rfl

theorem map_add_eq_iff {fields : List Nat} {outer base : Nat} :
    fields.map (base + ·) = fields.map (outer + base + ·) ↔ fields = [] ∨ outer = 0 := by
  cases fields with
  | nil => simp
  | cons field rest =>
      simp only [List.map_cons, List.cons.injEq, reduceCtorEq, false_or]
      constructor
      · intro ⟨first, _⟩
        omega
      · intro zero
        subst zero
        simp

mutual

theorem Descriptor.seen_eq_iff (descriptor : Descriptor) (outer base : Nat) :
    descriptor.seen base = descriptor.flat.map (outer + base + ·) ↔ descriptor.Grounded outer base := by
  match descriptor with
  | .mk fields unflattened size isArray =>
      simp only [Descriptor.seen, Descriptor.flat, Descriptor.Grounded, List.map_append]
      rw [append_eq_append_iff_of_length (by simp), map_add_eq_iff, seenOfChilds_eq_iff unflattened]

theorem Descriptor.seenOfChilds_eq_iff (childs : List (Nat × Descriptor)) (outer : Nat) :
    seenOfChilds childs = (flatOfChilds childs).map (outer + ·) ↔ GroundedChilds outer childs := by
  match childs with
  | [] => simp [seenOfChilds, flatOfChilds, GroundedChilds]
  | (offset, child) :: rest =>
      have shifted : (child.flat.map (offset + ·)).map (outer + ·) = child.flat.map (outer + offset + ·) := by
        simp only [List.map_map, Function.comp_def, Nat.add_assoc]
      simp only [seenOfChilds, flatOfChilds, GroundedChilds, List.map_append, shifted]
      rw [append_eq_append_iff_of_length (by simp [child.length_seen offset]), child.seen_eq_iff outer offset,
        seenOfChilds_eq_iff rest outer]

end

/-- The iteration returns the pointers of a descriptor exactly when nothing with fields of its
own is nested below an offset other than zero. -/
theorem Descriptor.iterPtrs_flat_iff (descriptor : Descriptor) :
    (∃ turns, Iterates PointerIter.turn turns descriptor.iterPtrs descriptor.flat) ↔ descriptor.Grounded 0 0 := by
  rw [← descriptor.seen_eq_iff 0 0]
  simp only [Nat.zero_add, List.map_id']
  constructor
  · intro ⟨_, iterates⟩
    exact (iterates.unique descriptor.iterPtrs_iterates).2
  · intro same
    exact ⟨descriptor.turns, same ▸ descriptor.iterPtrs_iterates⟩

/-- A structure with a word and a pointer, behind a word of another structure. -/
def nestedStructure : Descriptor :=
  .newUnflattened [] 24 [(0, .new [] 8), (8, .newUnflattened [] 16 [(0, .new [] 8), (8, .new [0] 8)])]

theorem nested_base_dropped :
    (∃ turns, Iterates PointerIter.turn turns nestedStructure.iterPtrs [8]) ∧ nestedStructure.flat = [16] ∧
      ¬ ∃ turns, Iterates PointerIter.turn turns nestedStructure.iterPtrs nestedStructure.flat := by
  have seen : Iterates PointerIter.turn _ nestedStructure.iterPtrs [8] := nestedStructure.iterPtrs_iterates
  have flat : nestedStructure.flat = [16] := rfl
  refine ⟨⟨_, seen⟩, flat, ?_⟩
  rintro ⟨turns, iterates⟩
  rw [flat] at iterates
  cases (seen.unique iterates).2

end UwUGC.Plus
