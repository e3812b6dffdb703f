import UwUGC.PlusAlloc.VecProperties

/-! Bulk growth. `resize_with` ensures the capacity for one more item, however many follow. -/

set_option autoImplicit false

namespace UwUGC.PlusAlloc

open Plus

variable {α : Type} {environment : Environment α} {runtime : Runtime α} {safepoint : List Nat}
  {self holder capacity count : Nat} {values : List α} {initer : Nat → α}

/-- What a call should come to: the old items and behind them those of the calls of `initer`,
or a refusal when the heap has no room for the array, with the items as they were. -/
inductive Resizes (environment : Environment α) (safepoint : List Nat) (self : Nat) (values : List α) (capacity : Nat)
    (count : Nat) (initer : Nat → α) (runtime : Runtime α) : Prop where
  | grown {next : Runtime α} {nextCapacity : Nat}
      (returned : Vec.resizeWith environment safepoint self count initer runtime = .ok (true, next))
      (items : VecAt next.heap self (values ++ (List.range count).map initer) nextCapacity)
  | refused {next : Runtime α}
      (returned : Vec.resizeWith environment safepoint self count initer runtime = .ok (false, next))
      (fast : environment.allocFast runtime.heap (roundedUp (values.length + 1)) = none)
      (slow : environment.allocSlow (runtime.heap.relocate (environment.collect runtime.heap))
        (roundedUp (values.length + 1)) = none)
      (items : VecAt next.heap self values capacity)

/-- The items that are to come fit in what the capacity for one of them comes to. -/
theorem resizeWith_iff (vec : VecAt runtime.heap self values capacity)
    (borrowed : Runtime.Borrowed runtime.roots safepoint holder) :
    Resizes environment safepoint self values capacity count initer runtime ↔
      Extensible environment runtime.heap values.length capacity ∧
        values.length + count ≤ max capacity (roundedUp (values.length + 1)) := by
  obtain ⟨backing, read⟩ := vec.getVec
  have length : ((List.range count).map initer).length = count := by
    rw [List.length_map, List.length_range]
  constructor
  · intro resizes
    have returned : ∃ result, Vec.resizeWith environment safepoint self count initer runtime = .ok result := by
      cases resizes with
      | grown returned => exact ⟨_, returned⟩
      | refused returned => exact ⟨_, returned⟩
    obtain ⟨result, returned⟩ := returned
    simp only [Vec.resizeWith, read, bind_eq_ok, Except.ok.injEq, exists_eq_left'] at returned
    obtain ⟨minCapacity, added, ⟨ensured, middle⟩, ensures, returned⟩ := returned
    obtain ⟨extensible, rfl⟩ := vec.extensible borrowed added ensures
    refine ⟨extensible, ?_⟩
    obtain ⟨next, same, _, larger⟩ := vec.ensured safepoint borrowed.consistent extensible
    cases same.symm.trans ensures
    simp only [if_true, bind_eq_ok] at returned
    obtain ⟨pushed, pushes, _⟩ := returned
    by_contra short
    refine larger.pushAll_full ?_ pushes
    rw [length]
    exact Nat.lt_of_not_le short
  · rintro ⟨extensible, room⟩
    obtain ⟨middle, ensures, _, larger⟩ := vec.ensured safepoint borrowed.consistent extensible
    obtain ⟨next, pushes, _, items⟩ := larger.pushAll ((List.range count).map initer) (by rwa [length])
    refine .grown ?_ items
    simp only [Vec.resizeWith, read, extensible.requested.1, ensures, pushes, bind, Except.bind, if_true]

/-- Two items more fit in an array of four. -/
theorem resizeWith_iff_spare : Resizes Environment.still [] 0 [5, 6] 4 2 (· + 7) Runtime.filledVec := by
  have borrowed : Runtime.Borrowed (Runtime.emptyVec : Runtime Nat).roots [] 0 := Runtime.emptyVec_borrowed
  refine (resizeWith_iff Runtime.filledVec_at borrowed).mpr ⟨⟨by decide, .inl ?_⟩, ?_⟩ <;> decide +kernel

/-- Two items do not fit in an array of one, though the heap has room for the larger one. -/
theorem resizeWith_two :
    (Vec.resizeWith Environment.still [] 0 2 id Runtime.emptyVec).map (fun _ => ()) = .error .indexOutOfBounds ∧
      ¬ Resizes Environment.still [] 0 [] 0 2 id Runtime.emptyVec := by
  have panics : (Vec.resizeWith Environment.still [] 0 2 id Runtime.emptyVec).map (fun _ => ()) =
      .error .indexOutOfBounds := by decide +kernel
  refine ⟨panics, ?_⟩
  intro resizes
  cases resizes with
  | grown returned =>
      rw [returned] at panics
      cases panics
  | refused returned =>
      rw [returned] at panics
      cases panics

end UwUGC.PlusAlloc
