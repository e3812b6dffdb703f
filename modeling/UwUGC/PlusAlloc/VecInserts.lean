import UwUGC.Lib.Transition
import UwUGC.PlusAlloc.VecProperties

/-! Insertions through the reference of the caller. -/

set_option autoImplicit false

namespace UwUGC.PlusAlloc

open Plus UwUGC.PlusAlloc.Runtime

variable {α : Type}

/-- A call of `insert`, and what the allocator and the collector do meanwhile. The safepoint
list cannot name the reference that the vector is borrowed through. -/
structure InsertCall (α : Type) (holder : Nat) where
  environment : Environment α
  safepoint : List Nat
  outside : holder ∉ safepoint
  data : α

/-- `None` where the call panics or is refused. -/
def insertCall (holder : Nat) (runtime : Runtime α) (call : InsertCall α holder) : Option (Runtime α) :=
  match runtime.getPtr holder with
  | .ok self =>
      match Vec.insert call.environment call.safepoint self call.data runtime with
      | .ok (true, next) => some next
      | _ => none
  | .error _ => none

/-- What the caller sees through its reference: the vector's items, and the capacity. -/
structure Reads (runtime : Runtime α) (holder : Nat) (values : List α) (capacity : Nat) : Prop where
  seen : ∃ self, runtime.getPtr holder = .ok self ∧ VecAt runtime.heap self values capacity

/-- The call returns `Ok`. It appends its item, and the capacity is a power of two. -/
def Appends (holder : Nat) (runtime : Runtime α) (call : InsertCall α holder) : Prop :=
  ∃ next values capacity k, Reads runtime holder values capacity ∧ insertCall holder runtime call = some next ∧
    Reads next holder (values ++ [call.data]) (2 ^ k)

/-- There is room for the item; or the array is empty or of one item, and the allocator has
room for a larger one at once. -/
def Roomy (holder : Nat) (runtime : Runtime α) (call : InsertCall α holder) : Prop :=
  ∃ values capacity, Reads runtime holder values capacity ∧
    (values.length < capacity ∨
      capacity ≤ 1 ∧ (call.environment.allocFast runtime.heap (values.length + 1)).isSome)

variable {runtime next : Runtime α} {holder self capacity other : Nat} {values others : List α}

theorem VecAt.unique {heap : Heap α} (vec : VecAt heap self values capacity) (same : VecAt heap self others other) :
    values = others ∧ capacity = other := by
  cases vec with
  | empty vec =>
      cases same with
      | empty => exact ⟨rfl, rfl⟩
      | backed found =>
          rw [vec] at found
          cases found
  | @backed ptr _ spare vec array =>
      cases same with
      | empty found =>
          rw [vec] at found
          cases found
      | @backed _ _ rest found stored =>
          rw [vec] at found
          obtain ⟨rfl, length⟩ : ptr = _ ∧ values.length = others.length := by simpa using found
          rw [array] at stored
          have items : values.map some ++ spare = others.map some ++ rest := by simpa using stored
          obtain ⟨front, behind⟩ := List.append_inj items (by simpa using length)
          have equal : values = others := List.map_injective_iff.mpr (fun _ _ same => Option.some.inj same) front
          rw [equal, behind]
          exact ⟨rfl, rfl⟩

theorem Reads.unique (reads : Reads runtime holder values capacity) (same : Reads runtime holder others other) :
    values = others ∧ capacity = other := by
  obtain ⟨self, pointer, vec⟩ := reads.seen
  obtain ⟨_, found, there⟩ := same.seen
  rw [pointer] at found
  cases found
  exact vec.unique there

/-- A capacity is that of no array or a power of two. -/
def Rounded (capacity : Nat) : Prop := capacity = 0 ∨ ∃ k, capacity = 2 ^ k

theorem Rounded.extensible_iff (rounded : Rounded capacity) {environment : Environment α} {heap : Heap α} {len : Nat}
    (inside : len ≤ capacity) (word : capacity < 2 ^ 64) :
    Extensible environment heap len capacity ↔
      len < capacity ∨ capacity ≤ 1 ∧ (environment.allocFast heap (len + 1)).isSome := by
  have enough := le_roundedUp (len + 1)
  have exact_of_full (full : ¬ len < capacity) (single : capacity ≤ 1) : roundedUp (len + 1) = len + 1 := by
    have cases : len = 0 ∨ len = 1 := by omega
    rcases cases with rfl | rfl <;> decide
  constructor
  · rintro ⟨_, room⟩
    by_cases free : len < capacity
    · exact .inl free
    · right
      rcases room with room | ⟨single, fast⟩
      · omega
      · rw [exact_of_full free single] at fast
        exact ⟨single, fast⟩
  · intro room
    by_cases free : len < capacity
    · rcases rounded with rfl | ⟨k, rfl⟩
      · cases free
      · have exponent : k < 64 := (Nat.pow_lt_pow_iff_right (by omega)).mp word
        have half : 2 ^ k ≤ 2 ^ 63 := Nat.pow_le_pow_right (by omega) (by omega)
        exact ⟨by omega, .inl (roundedUp_le free)⟩
    · obtain ⟨single, fast⟩ := room.resolve_left free
      refine ⟨by omega, .inr ⟨single, ?_⟩⟩
      rw [exact_of_full free single]
      exact fast

theorem getPtr_eq_ok : runtime.getPtr holder = .ok self ↔
    ∃ raw, runtime.roots.refs[holder]? = some (some raw) ∧ raw.ptr = some self := by
  cases found : runtime.roots.refs[holder]? with
  | none => simp [getPtr, found, unwrap, bind, Except.bind]
  | some entry =>
      cases entry with
      | none => simp [getPtr, found, unwrap, bind, Except.bind]
      | some raw =>
          cases held : raw.ptr <;>
            simp [getPtr, found, unwrap, RootRefRaw.getPtr, held, expect, bind, Except.bind]

/-- What is true between the calls. -/
structure Insertable (holder : Nat) (runtime : Runtime α) : Prop where
  consistent : runtime.roots.Consistent
  reads : ∃ values capacity, Reads runtime holder values capacity ∧ Rounded capacity

variable {call : InsertCall α holder}

theorem Roomy.insert (roomy : Roomy holder runtime call) (insertable : Insertable holder runtime) :
    ∃ next values capacity k, Reads runtime holder values capacity ∧ insertCall holder runtime call = some next ∧
      next.roots.Consistent ∧ Reads next holder (values ++ [call.data]) (2 ^ k) := by
  obtain ⟨values, capacity, reads, room⟩ := roomy
  obtain ⟨_, _, same, rounded⟩ := insertable.reads
  obtain ⟨rfl, rfl⟩ := reads.unique same
  obtain ⟨self, pointer, vec⟩ := reads.seen
  have extensible := (rounded.extensible_iff vec.length_le vec.word).mpr room
  obtain ⟨middle, ensured, extended, larger⟩ := vec.ensured call.safepoint insertable.consistent extensible
  have enough := le_roundedUp (values.length + 1)
  obtain ⟨next, pushed, roots, items⟩ := larger.push (by omega) call.data
  have power : ∃ k, max capacity (roundedUp (values.length + 1)) = 2 ^ k := by
    rcases Nat.le_total (roundedUp (values.length + 1)) capacity with room | grows
    · rw [Nat.max_eq_left room]
      exact rounded.resolve_left (by omega)
    · rw [Nat.max_eq_right grows]
      exact roundedUp_power _
  obtain ⟨k, power⟩ := power
  obtain ⟨backing, read⟩ := vec.getVec
  refine ⟨next, values, capacity, k, reads, ?_, ?_, self, ?_, power ▸ items⟩
  · simp only [insertCall, pointer, Vec.insert, read, extensible.requested.1, ensured, pushed, bind, Except.bind, if_true]
  · rw [roots]
    exact extended.consistent
  · obtain ⟨raw, found, held⟩ := getPtr_eq_ok.mp pointer
    exact getPtr_eq_ok.mpr ⟨raw, roots ▸ extended.found found, held⟩

theorem Appends.roomy (appends : Appends holder runtime call) (insertable : Insertable holder runtime) :
    Roomy holder runtime call := by
  obtain ⟨next, values, capacity, k, reads, taken, _⟩ := appends
  obtain ⟨_, _, same, rounded⟩ := insertable.reads
  obtain ⟨rfl, rfl⟩ := reads.unique same
  obtain ⟨self, pointer, vec⟩ := reads.seen
  obtain ⟨raw, found, held⟩ := getPtr_eq_ok.mp pointer
  obtain ⟨backing, read⟩ := vec.getVec
  have returned : Vec.insert call.environment call.safepoint self call.data runtime = .ok (true, next) := by
    simp only [insertCall, pointer] at taken
    split at taken
    · next returned =>
        cases taken
        exact returned
    · cases taken
  simp only [Vec.insert, read, bind_eq_ok, Except.ok.injEq, exists_eq_left'] at returned
  obtain ⟨minCapacity, added, result, ensured, _⟩ := returned
  have borrowed : Borrowed runtime.roots call.safepoint holder :=
    ⟨insertable.consistent, ⟨raw, self, found, held⟩, call.outside⟩
  exact ⟨values, capacity, reads, (rounded.extensible_iff vec.length_le vec.word).mp (vec.extensible borrowed added ensured).1⟩

/-- The insertions append as long as each has room without a copy of two items or more. -/
theorem inserts_append_iff {start : Runtime α} (insertable : Insertable holder start) (calls : List (InsertCall α holder)) :
    Transition.EachStep (insertCall holder) start calls (Appends holder) ↔
      Transition.EachStep (insertCall holder) start calls (Roomy holder) := by
  apply Transition.EachStep.iff_of_invariant (Insertable holder) insertable
  · intro runtime call insertable
    constructor
    · intro appends
      exact appends.roomy insertable
    · intro roomy
      obtain ⟨next, values, capacity, k, reads, taken, _, behind⟩ := roomy.insert insertable
      exact ⟨next, values, capacity, k, reads, taken, behind⟩
  · intro runtime call next insertable appends taken
    obtain ⟨_, _, _, k, _, same, consistent, behind⟩ := (appends.roomy insertable).insert insertable
    cases same.symm.trans taken
    exact ⟨consistent, _, _, behind, .inr ⟨k, rfl⟩⟩

/-- Nothing is moved, and the allocator has room. -/
def stillCall (data : Nat) : InsertCall Nat 0 where
  environment := .still
  safepoint := []
  outside := List.not_mem_nil
  data := data

/-- Two items more fit in an array of four, one after the other. -/
theorem inserts_append_iff_spare :
    Transition.EachStep (insertCall 0) filledVec [stillCall 7, stillCall 8] (Appends 0) := by
  have insertable : Insertable 0 filledVec :=
    ⟨(emptyVec_consistent : (emptyVec : Runtime Nat).roots.Consistent), [5, 6], 4, ⟨0, rfl, filledVec_at⟩, .inr ⟨2, rfl⟩⟩
  refine (inserts_append_iff insertable _).mpr ?_
  intro past call rest state split reached
  rcases past with - | ⟨first, - | ⟨_, past⟩⟩
  · cases reached
    exact ⟨[5, 6], 4, ⟨0, rfl, filledVec_at⟩, .inl (by decide)⟩
  · obtain ⟨rfl, _⟩ := List.cons.inj split
    cases reached.symm.trans (rfl : Transition.run (insertCall 0) filledVec [stillCall 7] = some _)
    exact ⟨[5, 6, 7], 4, ⟨0, rfl, @VecAt.backed _ _ _ 1 [5, 6, 7] [none] rfl rfl (by decide)⟩, .inl (by decide)⟩
  · simp at split

/-- The third item needs an array of four, and the copy of the second comes to a safepoint. -/
theorem insert_third_panics :
    ((Transition.run (insertCall 0) emptyVec [stillCall 5, stillCall 6]).map fun state =>
      (Vec.insert .still [] 0 7 state).map fun _ => ()) =
        some (.error (.message "There stil active RootReference, store them before safepoint")) ∧
      ¬ Transition.EachStep (insertCall 0) emptyVec [stillCall 5, stillCall 6, stillCall 7] (Appends 0) := by
  constructor
  · decide +kernel
  · intro each
    have returned : (Transition.run (insertCall 0) emptyVec [stillCall 5, stillCall 6]).isSome := by decide +kernel
    have stops : (Transition.run (insertCall 0) emptyVec [stillCall 5, stillCall 6, stillCall 7]).isNone := by
      decide +kernel
    obtain ⟨state, reached⟩ := Option.isSome_iff_exists.mp returned
    obtain ⟨next, _, _, _, _, taken, _⟩ := each [stillCall 5, stillCall 6] (stillCall 7) [] state rfl reached
    have ran := Transition.run_concat_eq_some.mpr ⟨state, reached, taken⟩
    change Transition.run (insertCall 0) emptyVec [stillCall 5, stillCall 6, stillCall 7] = some next at ran
    rw [ran] at stops
    cases stops

end UwUGC.PlusAlloc
