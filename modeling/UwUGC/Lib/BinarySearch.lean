import Mathlib.Data.List.Basic

/-! The binary search of the standard library. Its loop has no early exit: it
narrows the window to one element and compares that one last. -/

set_option autoImplicit false

namespace BinarySearch

/-- The base of the window that is left after narrowing `[base, base + size)`. Each
turn drops at least one element, so `fuel = size` turns are enough. -/
def narrow (compare : Nat → Ordering) : Nat → Nat → Nat → Nat
  | 0, base, _ => base
  | fuel + 1, base, size =>
      if size > 1 then
        let half := size / 2
        let mid := base + half
        narrow compare fuel (if compare mid = .gt then base else mid) (size - half)
      else base

variable {α : Type}

def compareAt (values : List α) (compare : α → Ordering) (idx : Nat) : Ordering :=
  (values[idx]?.map compare).getD .gt

/-- `slice::binary_search_by`. -/
def binarySearchBy (values : List α) (compare : α → Ordering) : Except Nat Nat :=
  match values with
  | [] => .error 0
  | _ =>
      let base := narrow (compareAt values compare) values.length 0 values.length
      match compareAt values compare base with
      | .eq => .ok base
      | .lt => .error (base + 1)
      | .gt => .error base

/-- The window keeps the last index that does not compare greater. -/
theorem narrow_eq {compare : Nat → Ordering} {last : Nat} (fuel base size : Nat)
    (enough : size ≤ fuel) (lower : base ≤ last) (upper : last < base + size)
    (below : ∀ idx ≤ last, compare idx ≠ .gt) (above : ∀ idx, last < idx → idx < base + size → compare idx = .gt) :
    narrow compare fuel base size = last := by
  induction fuel generalizing base size with
  | zero => omega
  | succ fuel ih =>
      simp only [narrow]
      split
      · next wide =>
          split
          · next greater =>
              have bound : last < base + size / 2 := by
                by_contra reached
                exact below _ (Nat.not_lt.mp reached) greater
              exact ih base _ (by omega) lower (by omega) fun idx behind inside => above idx behind (by omega)
          · next less =>
              have bound : base + size / 2 ≤ last := by
                by_contra beyond
                exact less (above _ (Nat.lt_of_not_le beyond) (by omega))
              exact ih _ _ (by omega) bound (by omega) fun idx behind inside => above idx behind (by omega)
      · omega

theorem compareAt_eq {values : List α} {compare : α → Ordering} {idx : Nat} :
    compareAt values compare idx = .eq ↔ ∃ value, values[idx]? = some value ∧ compare value = .eq := by
  unfold compareAt
  cases there : values[idx]? <;> simp

theorem binarySearchBy_of_ne_nil {values : List α} {compare : α → Ordering} (filled : values ≠ []) :
    binarySearchBy values compare =
      match compareAt values compare (narrow (compareAt values compare) values.length 0 values.length) with
      | .eq => .ok (narrow (compareAt values compare) values.length 0 values.length)
      | .lt => .error (narrow (compareAt values compare) values.length 0 values.length + 1)
      | .gt => .error (narrow (compareAt values compare) values.length 0 values.length) := by
  cases values with
  | nil => exact absurd rfl filled
  | cons value rest => rfl

/-- On any list, what is found compares equal. -/
theorem binarySearchBy_sound {values : List α} {compare : α → Ordering} {idx : Nat}
    (found : binarySearchBy values compare = .ok idx) :
    ∃ value, values[idx]? = some value ∧ compare value = .eq := by
  have filled : values ≠ [] := by
    intro empty
    rw [empty] at found
    cases found
  rw [binarySearchBy_of_ne_nil filled] at found
  split at found
  · next equal =>
      cases found
      exact compareAt_eq.mp equal
  · cases found
  · cases found

/-- On a list whose first part does not compare greater and whose second part does,
the search ends at the last value of the first part. -/
theorem binarySearchBy_partitioned {before behind : List α} {last : α} {compare : α → Ordering}
    (below : ∀ value ∈ before, compare value ≠ .gt) (reached : compare last ≠ .gt)
    (above : ∀ value ∈ behind, compare value = .gt) :
    binarySearchBy (before ++ last :: behind) compare =
      match compare last with
      | .eq => .ok before.length
      | .lt => .error (before.length + 1)
      | .gt => .error before.length := by
  have filled : before ++ last :: behind ≠ [] := by simp
  have atLast : compareAt (before ++ last :: behind) compare before.length = compare last := by
    simp [compareAt]
  have narrowed : narrow (compareAt (before ++ last :: behind) compare) (before ++ last :: behind).length 0
      (before ++ last :: behind).length = before.length := by
    apply narrow_eq _ _ _ (Nat.le_refl _) (Nat.zero_le _)
    · simp
    · intro idx within
      rcases Nat.lt_or_eq_of_le within with earlier | same
      · have there : (before ++ last :: behind)[idx]? = some before[idx] := by
          rw [List.getElem?_append_left earlier, List.getElem?_eq_getElem earlier]
        simpa [compareAt, there] using below _ (List.getElem_mem earlier)
      · subst same
        rwa [atLast]
    · intro idx later inside
      have bound : idx - before.length - 1 < behind.length := by
        simp at inside
        omega
      have there : (before ++ last :: behind)[idx]? = some behind[idx - before.length - 1] := by
        rw [List.getElem?_append_right (Nat.le_of_lt later), List.getElem?_cons, if_neg (by omega),
          List.getElem?_eq_getElem bound]
      simpa [compareAt, there] using above _ (List.getElem_mem bound)
  rw [binarySearchBy_of_ne_nil filled, narrowed, atLast]

/-- A value that compares equal between smaller and greater ones is found. -/
theorem binarySearchBy_found {before behind : List α} {value : α} {compare : α → Ordering}
    (less : ∀ other ∈ before, compare other = .lt) (equal : compare value = .eq)
    (greater : ∀ other ∈ behind, compare other = .gt) :
    binarySearchBy (before ++ value :: behind) compare = .ok before.length := by
  rw [binarySearchBy_partitioned (fun other member => by simp [less other member]) (by simp [equal]) greater,
    equal]

end BinarySearch
