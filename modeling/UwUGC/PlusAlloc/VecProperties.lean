import UwUGC.Plus.RootRefsRuns
import UwUGC.PlusAlloc.Vec

/-! What a method of the vector does. The vector is reached through a reference that is
borrowed, so no safepoint inside of the method can be passed. -/

set_option autoImplicit false

namespace UwUGC.PlusAlloc

open Plus

namespace Runtime

variable {α : Type} {environment : Environment α} {runtime next : Runtime α} {roots later : RootRefs}
  {safepoint : List Nat} {ref self : Nat}

theorem callRef_store_eq_ok : callRef RootRefRaw.store roots ref = .ok later ↔ roots.step .debug (.store ref) = some later := by
  cases found : roots.refs[ref]? with
  | none => simp [callRef, RootRefs.step, found, unwrap, bind, Except.bind]
  | some entry =>
      cases entry with
      | none => simp [callRef, RootRefs.step, found, unwrap, bind, Except.bind]
      | some raw =>
          simp only [callRef, RootRefs.step, found, Option.join_some, unwrap_some, bind, Except.bind]
          rcases raw.store roots.inner with ⟨_ | _, _⟩ <;> simp

theorem dropRef_eq_ok : dropRef roots ref = .ok later ↔ roots.step .debug (.drop ref) = some later := by
  cases found : roots.refs[ref]? with
  | none => simp [dropRef, RootRefs.step, found, unwrap, bind, Except.bind]
  | some entry =>
      cases entry with
      | none => simp [dropRef, RootRefs.step, found, unwrap, bind, Except.bind]
      | some raw =>
          simp only [dropRef, RootRefs.step, found, Option.join_some, unwrap_some, bind, Except.bind]
          rcases raw.drop .debug roots.inner with ⟨_ | _, _⟩ <;> simp

/-- A live reference that is borrowed: it holds its pointer, and a safepoint cannot name it. -/
structure Borrowed (roots : RootRefs) (safepoint : List Nat) (holder : Nat) : Prop where
  consistent : roots.Consistent
  loaded : ∃ raw ptr, roots.refs[holder]? = some (some raw) ∧ raw.ptr = some ptr
  outside : holder ∉ safepoint

variable {holder : Nat}

theorem Borrowed.more (borrowed : Borrowed roots safepoint holder) (different : ref ≠ holder) :
    Borrowed roots (ref :: safepoint) holder where
  consistent := borrowed.consistent
  loaded := borrowed.loaded
  outside := by
    rw [List.mem_cons, not_or]
    exact ⟨Ne.symm different, borrowed.outside⟩

theorem Borrowed.storeAll (borrowed : Borrowed roots safepoint holder) (returned : storeAll roots safepoint = .ok later) :
    ∃ raw ptr, later.Consistent ∧ later.refs[holder]? = some (some raw) ∧ raw.ptr = some ptr := by
  induction safepoint generalizing roots with
  | nil =>
      cases returned
      obtain ⟨raw, ptr, found, held⟩ := borrowed.loaded
      exact ⟨raw, ptr, borrowed.consistent, found, held⟩
  | cons ref rest ih =>
      simp only [Runtime.storeAll, bind_eq_ok, callRef_store_eq_ok] at returned
      obtain ⟨middle, stored, returned⟩ := returned
      have outside := borrowed.outside
      rw [List.mem_cons, not_or] at outside
      obtain ⟨outside, others⟩ := outside
      obtain ⟨consistent, moves⟩ := borrowed.consistent.step stored
      refine ih ⟨consistent, ?_, others⟩ returned
      obtain ⟨raw, ptr, found, held⟩ := borrowed.loaded
      refine ⟨raw, ptr, ?_, held⟩
      cases moves with
      | keeps refs _ => exact refs holder raw found
      | store _ _ refs _ =>
          rw [refs, List.getElem?_set_ne (Ne.symm outside)]
          exact found

theorem Borrowed.refused (borrowed : Borrowed roots safepoint holder) (returned : Runtime.storeAll roots safepoint = .ok later)
    (text : String) : later.inner.checkStored text ≠ .ok () := by
  obtain ⟨raw, ptr, consistent, found, held⟩ := borrowed.storeAll returned
  intro passed
  have member : raw ∈ later.live := List.reduceOption_mem_iff.mpr (List.mem_of_getElem? found)
  have stored := (consistent.checked text).mp passed raw member
  rw [held] at stored
  cases stored

theorem Borrowed.pass_panics (borrowed : Borrowed runtime.roots safepoint holder) :
    runtime.pass environment safepoint ≠ .ok next := by
  intro returned
  simp only [pass, bind_eq_ok] at returned
  obtain ⟨roots, stored, _, passed, _⟩ := returned
  exact borrowed.refused stored _ passed

theorem Borrowed.allocSlow_panics (borrowed : Borrowed runtime.roots safepoint holder) {len : Nat}
    {result : Option (Nat × Nat) × Runtime α} : runtime.allocSlow environment safepoint len ≠ .ok result := by
  intro returned
  simp only [allocSlow, bind_eq_ok] at returned
  obtain ⟨roots, stored, _, passed, _⟩ := returned
  exact borrowed.refused stored _ passed

structure Adds (roots later : RootRefs) (ptr : Nat) : Prop where
  consistent : later.Consistent
  added : ∃ raw, later.refs = roots.refs ++ [some raw] ∧ raw.ptr = some ptr

theorem addPtr_adds (consistent : roots.Consistent) (ptr : Nat) :
    ∃ later, addPtr roots ptr = .ok (roots.refs.length, later) ∧ Adds roots later ptr := by
  obtain ⟨raw, inner, returned, held, _⟩ := Sound.addPtr consistent ptr
  obtain ⟨next, stepped, behind, _⟩ := consistent.addPtr ptr
  simp only [RootRefs.addPtr, returned, Option.some.injEq] at stepped
  refine ⟨next, ?_, behind, raw, ?_, held⟩
  · simp only [addPtr, returned, stepped]
  · rw [← stepped]

theorem Adds.found {ptr : Nat} (adds : Adds roots later ptr) :
    ∃ raw, later.refs[roots.refs.length]? = some (some raw) ∧ raw.ptr = some ptr := by
  obtain ⟨raw, refs, held⟩ := adds.added
  exact ⟨raw, by rw [refs, List.getElem?_concat_length], held⟩

theorem Adds.getPtr {ptr : Nat} (adds : Adds roots runtime.roots ptr) :
    runtime.getPtr roots.refs.length = .ok ptr := by
  obtain ⟨raw, found, held⟩ := adds.found
  simp only [Runtime.getPtr, found, Option.join_some, unwrap_some, RootRefRaw.getPtr, held, expect_some, bind, Except.bind]

theorem Adds.dropRef {ptr : Nat} (adds : Adds roots later ptr) :
    ∃ final, Runtime.dropRef later roots.refs.length = .ok final ∧ final.Consistent ∧
      final.refs = roots.refs ++ [none] := by
  obtain ⟨raw, found, _⟩ := adds.found
  obtain ⟨final, dropped, consistent, refs, _⟩ := adds.consistent.drop .debug found
  refine ⟨final, dropRef_eq_ok.mpr dropped, consistent, ?_⟩
  obtain ⟨raw, appended, _⟩ := adds.added
  rw [refs, appended, List.set_append_right _ _ (Nat.le_refl _), Nat.sub_self, List.set_cons_zero]

theorem Borrowed.lt (borrowed : Borrowed roots safepoint holder) : holder < roots.refs.length := by
  obtain ⟨raw, ptr, found, _⟩ := borrowed.loaded
  exact (List.getElem?_eq_some_iff.mp found).1

/-- References were added behind those there, and dropped again or not. -/
structure Extends (roots later : RootRefs) : Prop where
  consistent : later.Consistent
  added : ∃ added, later.refs = roots.refs ++ added

theorem Extends.refl (consistent : roots.Consistent) : Extends roots roots where
  consistent := consistent
  added := ⟨[], (List.append_nil _).symm⟩

theorem Extends.found {raw : RootRefRaw} (extended : Extends roots later) (found : roots.refs[ref]? = some (some raw)) :
    later.refs[ref]? = some (some raw) := by
  obtain ⟨added, refs⟩ := extended.added
  rw [refs, List.getElem?_append_left (List.getElem?_eq_some_iff.mp found).1]
  exact found

theorem Borrowed.extended (borrowed : Borrowed roots safepoint holder) (extended : Extends roots later) :
    Borrowed later safepoint holder where
  consistent := extended.consistent
  loaded := by
    obtain ⟨raw, ptr, found, held⟩ := borrowed.loaded
    exact ⟨raw, ptr, extended.found found, held⟩
  outside := borrowed.outside

theorem Borrowed.adds {ptr : Nat} (borrowed : Borrowed roots safepoint holder) (adds : Adds roots later ptr) :
    Borrowed later (roots.refs.length :: safepoint) holder := by
  obtain ⟨raw, refs, _⟩ := adds.added
  exact (borrowed.extended ⟨adds.consistent, _, refs⟩).more (Nat.ne_of_gt borrowed.lt)

theorem Borrowed.allocArray_slow (borrowed : Borrowed runtime.roots safepoint holder) {len : Nat}
    (full : environment.allocFast runtime.heap len = none) {result : Option Nat × Runtime α} :
    runtime.allocArray environment safepoint len ≠ .ok result := by
  intro returned
  simp only [allocArray, full, bind_eq_ok] at returned
  obtain ⟨_, slow, _⟩ := returned
  exact borrowed.allocSlow_panics slow

theorem setItem_roots {ptr index : Nat} {item : Option α} (returned : runtime.setItem ptr index item = .ok next) :
    next.roots = runtime.roots := by
  simp only [setItem, bind_eq_ok] at returned
  obtain ⟨items, _, returned⟩ := returned
  split at returned
  · cases returned
    rfl
  · cases returned

theorem Borrowed.copyItems_panics {old allocated index : Nat} {indices : List Nat}
    (borrowed : Borrowed runtime.roots (allocated :: safepoint) holder) (member : index ∈ indices)
    (safe : index % 512 ≠ 0) : runtime.copyItems environment safepoint old allocated indices ≠ .ok next := by
  induction indices generalizing runtime with
  | nil => cases member
  | cons first rest ih =>
      intro returned
      simp only [copyItems, bind_eq_ok] at returned
      obtain ⟨_, _, _, _, _, _, copied, set, returned⟩ := returned
      have roots := setItem_roots set
      by_cases here : first % 512 ≠ 0
      · simp only [if_pos here, bind_eq_ok] at returned
        obtain ⟨passed, pass, _⟩ := returned
        exact Borrowed.pass_panics (roots ▸ borrowed) pass
      · simp only [if_neg here, bind_eq_ok, Except.ok.injEq, exists_eq_left'] at returned
        refine ih (roots ▸ borrowed) ?_ returned
        rcases List.mem_cons.mp member with same | behind
        · exact absurd (same ▸ safe) here
        · exact behind

end Runtime

/-- The capacity that is asked for in place of `value`. -/
def roundedUp (value : Nat) : Nat := if value ≤ 1 then 1 else 2 ^ ((value - 1).log2 + 1)

theorem le_roundedUp (value : Nat) : value ≤ roundedUp value := by
  unfold roundedUp
  split
  · assumption
  · have less := @Nat.lt_log2_self (value - 1)
    omega

theorem roundedUp_power (value : Nat) : ∃ k, roundedUp value = 2 ^ k := by
  unfold roundedUp
  split
  · exact ⟨0, rfl⟩
  · exact ⟨_, rfl⟩

/-- It is the least power of two that is not smaller. -/
theorem roundedUp_le {value k : Nat} (below : value ≤ 2 ^ k) : roundedUp value ≤ 2 ^ k := by
  unfold roundedUp
  split
  · exact Nat.one_le_two_pow
  · apply Nat.pow_le_pow_right (Nat.succ_pos _)
    apply Nat.succ_le_of_lt
    rw [Nat.log2_lt (by omega)]
    omega

theorem roundedUp_of_power {value : Nat} (power : isPowerOfTwo value = true) : roundedUp value = value := by
  simp only [isPowerOfTwo, Bool.and_eq_true, bne_iff_ne, beq_iff_eq] at power
  have least : roundedUp value ≤ 2 ^ value.log2 := roundedUp_le (Nat.le_of_eq power.2.symm)
  have enough := le_roundedUp value
  omega

theorem requestedCapacity_eq_ok {value capacity : Nat} (word : value < 2 ^ 64) :
    requestedCapacity value = .ok capacity ↔ value ≤ 2 ^ 63 ∧ capacity = roundedUp value := by
  have small (inside : value ≤ 2 ^ 63) : roundedUp value ≤ 2 ^ 63 := roundedUp_le inside
  have large (outside : roundedUp value < 2 ^ 64) : value ≤ 2 ^ 63 := by
    obtain ⟨k, power⟩ := roundedUp_power value
    have enough := le_roundedUp value
    rw [power] at outside enough
    have exponent : k < 64 := (Nat.pow_lt_pow_iff_right (by omega)).mp outside
    exact Nat.le_trans enough (Nat.pow_le_pow_right (by omega) (by omega))
  unfold requestedCapacity
  split
  · next power =>
      have same := roundedUp_of_power power
      rw [same] at large
      constructor
      · intro returned
        cases returned
        exact ⟨large word, same.symm⟩
      · rintro ⟨_, rfl⟩
        rw [same]
  · simp only [nextPowerOfTwo]
    change (if roundedUp value < 2 ^ 64 then _ else _) = _ ↔ _
    split
    · next fits =>
        constructor
        · intro returned
          cases returned
          exact ⟨large fits, rfl⟩
        · rintro ⟨_, rfl⟩
          rfl
    · next wraps =>
        constructor
        · intro returned
          cases returned
        · rintro ⟨inside, _⟩
          have bound := small inside
          omega

variable {α : Type} {environment : Environment α} {runtime next : Runtime α} {safepoint : List Nat}
  {self holder capacity : Nat} {values : List α}

/-- The vector at an address, its items and its capacity. The items behind the others may be stale. -/
inductive VecAt (heap : Heap α) (self : Nat) : List α → Nat → Prop where
  | empty (vec : heap self = some (.vec none 0)) : VecAt heap self [] 0
  | backed {ptr : Nat} {values : List α} {spare : List (Option α)}
      (vec : heap self = some (.vec (some ptr) values.length))
      (array : heap ptr = some (.array (values.map some ++ spare)))
      (word : values.length + spare.length < 2 ^ 64) : VecAt heap self values (values.length + spare.length)

theorem Runtime.getVec_of {backing : Option Nat} {len : Nat} (vec : runtime.heap self = some (.vec backing len)) :
    runtime.getVec self = .ok (backing, len) := by
  simp only [Runtime.getVec, vec]

theorem Runtime.getArray_of {ptr : Nat} {items : List (Option α)} (array : runtime.heap ptr = some (.array items)) :
    runtime.getArray ptr = .ok items := by
  simp only [Runtime.getArray, array]

theorem Runtime.setItem_of {ptr index : Nat} {items : List (Option α)} {item : Option α}
    (array : runtime.heap ptr = some (.array items)) (inside : index < items.length) :
    runtime.setItem ptr index item = .ok (runtime.setObject ptr (.array (items.set index item))) := by
  simp only [Runtime.setItem, Runtime.getArray_of array, bind, Except.bind, if_pos inside]

@[simp] theorem Runtime.setObject_roots (ptr : Nat) (object : Object α) : (runtime.setObject ptr object).roots = runtime.roots := rfl

@[simp] theorem Runtime.setObject_here (ptr : Nat) (object : Object α) :
    (runtime.setObject ptr object).heap ptr = some object := by
  simp [Runtime.setObject]

theorem Runtime.setObject_there {ptr other : Nat} (different : other ≠ ptr) (object : Object α) :
    (runtime.setObject ptr object).heap other = runtime.heap other := by
  simp [Runtime.setObject, different]

theorem VecAt.length_le (vec : VecAt runtime.heap self values capacity) : values.length ≤ capacity := by
  cases vec with
  | empty => exact Nat.le_refl _
  | backed => exact Nat.le_add_right _ _

theorem VecAt.getVec (vec : VecAt runtime.heap self values capacity) :
    ∃ backing, runtime.getVec self = .ok (backing, values.length) := by
  cases vec with
  | empty vec => exact ⟨none, Runtime.getVec_of vec⟩
  | backed vec => exact ⟨_, Runtime.getVec_of vec⟩

theorem VecAt.word (vec : VecAt runtime.heap self values capacity) : capacity < 2 ^ 64 := by
  cases vec with
  | empty => decide
  | backed _ _ word => exact word

/-- Writing an item behind the others appends it, where there is room. -/
theorem VecAt.push (vec : VecAt runtime.heap self values capacity) (room : values.length < capacity) (data : α) :
    ∃ next, Vec.push self data runtime = .ok next ∧ next.roots = runtime.roots ∧
      VecAt next.heap self (values ++ [data]) capacity := by
  cases vec with
  | empty => cases room
  | @backed ptr _ spare vec array word =>
      cases spare with
      | nil => exact absurd room (Nat.lt_irrefl _)
      | cons stale spare =>
          have apart : self ≠ ptr := by
            intro same
            rw [same, array] at vec
            cases vec
          have inside : values.length < (values.map some ++ stale :: spare).length := by simp
          have kept : (runtime.setObject ptr (.array ((values.map some ++ stale :: spare).set values.length (some data)))).heap
              self = some (.vec (some ptr) values.length) := by
            rw [Runtime.setObject_there apart]
            exact vec
          have length : checkedAdd values.length 1 = .ok (values.length + 1) := by
            rw [checkedAdd, if_pos]
            simp only [List.length_cons] at word
            omega
          have shifted : (values.map some ++ stale :: spare).set values.length (some data) =
              (values ++ [data]).map some ++ spare := by
            rw [List.set_append_right _ _ (by simp)]
            simp
          refine ⟨(runtime.setObject ptr (.array ((values.map some ++ stale :: spare).set values.length (some data)))).setObject
            self (.vec (some ptr) (values.length + 1)), ?_, ?_, ?_⟩
          · simp only [Vec.push, Runtime.getVec_of vec, unwrap_some, Runtime.setItem_of array inside, Runtime.getVec_of kept, length, bind,
              Except.bind]
          · rfl
          · have total : values.length + (stale :: spare).length = (values ++ [data]).length + spare.length := by
              simp only [List.length_cons, List.length_append, List.length_nil]
              omega
            rw [total] at word ⊢
            refine @VecAt.backed _ _ _ ptr _ _ ?_ ?_ word
            · rw [Runtime.setObject_here, List.length_append, List.length_singleton]
            · rw [Runtime.setObject_there (Ne.symm apart), Runtime.setObject_here, shifted]

theorem VecAt.push_full (vec : VecAt runtime.heap self values capacity) (full : capacity ≤ values.length) (data : α) :
    Vec.push self data runtime ≠ .ok next := by
  intro returned
  cases vec with
  | empty vec =>
      simp only [Vec.push, Runtime.getVec_of vec, unwrap, bind, Except.bind] at returned
      cases returned
  | @backed ptr _ spare vec array =>
      have outside : ¬ values.length < (values.map some ++ spare).length := by
        rw [List.length_append, List.length_map]
        omega
      simp only [Vec.push, Runtime.getVec_of vec, unwrap_some, Runtime.setItem, Runtime.getArray_of array, if_neg outside, bind,
        Except.bind] at returned
      cases returned

theorem VecAt.pushAll (vec : VecAt runtime.heap self values capacity) (more : List α)
    (room : values.length + more.length ≤ capacity) :
    ∃ next, Vec.pushAll self more runtime = .ok next ∧ next.roots = runtime.roots ∧
      VecAt next.heap self (values ++ more) capacity := by
  induction more generalizing runtime values with
  | nil =>
      rw [List.append_nil]
      exact ⟨runtime, rfl, rfl, vec⟩
  | cons data rest ih =>
      simp only [List.length_cons] at room
      obtain ⟨middle, pushed, roots, vec⟩ := vec.push (by omega) data
      obtain ⟨next, returned, sameRoots, vec⟩ := ih vec (by simp only [List.length_append, List.length_singleton]; omega)
      refine ⟨next, ?_, sameRoots.trans roots, ?_⟩
      · simp only [Vec.pushAll, pushed, bind, Except.bind, returned]
      · rwa [List.append_assoc, List.singleton_append] at vec

theorem VecAt.pushAll_full (vec : VecAt runtime.heap self values capacity) {more : List α}
    (full : capacity < values.length + more.length) : Vec.pushAll self more runtime ≠ .ok next := by
  induction more generalizing runtime values with
  | nil =>
      have inside := vec.length_le
      simp only [List.length_nil] at full
      omega
  | cons data rest ih =>
      intro returned
      simp only [Vec.pushAll, bind_eq_ok] at returned
      obtain ⟨middle, pushed, returned⟩ := returned
      by_cases room : values.length < capacity
      · obtain ⟨same, pushed', _, vec⟩ := vec.push room data
        cases pushed'.symm.trans pushed
        refine ih vec ?_ returned
        simp only [List.length_append, List.length_cons, List.length_nil] at full ⊢
        omega
      · exact vec.push_full (Nat.le_of_not_lt room) data pushed

theorem Runtime.Adds.storeBacking {roots : RootRefs} {ptr len : Nat} {backing : Option Nat}
    (adds : Adds roots runtime.roots ptr) (vec : runtime.heap self = some (.vec backing len)) :
    ∃ later : RootRefs, runtime.storeBacking self roots.refs.length =
        .ok ⟨(runtime.setObject self (.vec (some ptr) len)).heap, later⟩ ∧
      later.Consistent ∧ later.refs = roots.refs ++ [none] := by
  obtain ⟨later, dropped, consistent, refs⟩ := adds.dropRef
  refine ⟨later, ?_, consistent, refs⟩
  simp only [Runtime.storeBacking, adds.getPtr, dropped, Runtime.getVec_of vec, bind, Except.bind]

/-- An array that is put in the heap at once lies apart from all objects there. -/
theorem Runtime.allocArray_fast (consistent : runtime.roots.Consistent) {len ptr : Nat}
    (fast : environment.allocFast runtime.heap len = some ptr) :
    ∃ next, runtime.allocArray environment safepoint len = .ok (some runtime.roots.refs.length, next) ∧
      Adds runtime.roots next.roots ptr ∧ next.heap ptr = some (.array (List.replicate len none)) ∧
      ∀ other object, runtime.heap other = some object → other ≠ ptr ∧ next.heap other = some object := by
  obtain ⟨later, added, adds⟩ := addPtr_adds consistent ptr
  refine ⟨setObject ⟨runtime.heap, later⟩ ptr (.array (List.replicate len none)), ?_, adds, setObject_here _ _, ?_⟩
  · simp only [allocArray, fast, added, bind, Except.bind]
  · intro other object there
    have apart : other ≠ ptr := by
      intro same
      rw [same, environment.fresh _ _ _ fast] at there
      cases there
    exact ⟨apart, (setObject_there apart _).trans there⟩

variable {minCapacity wanted : Nat}

theorem VecAt.ensure_enough (vec : VecAt runtime.heap self values capacity)
    (requested : requestedCapacity minCapacity = .ok wanted) (positive : 0 < wanted) (enough : wanted ≤ capacity) :
    Vec.ensureCapacity environment safepoint self minCapacity runtime = .ok (true, runtime) := by
  cases vec with
  | empty => omega
  | @backed ptr _ spare vec array =>
      have inside : ¬ wanted > (values.map some ++ spare).length := by
        rw [List.length_append, List.length_map]
        omega
      simp only [Vec.ensureCapacity, requested, Runtime.getVec_of vec, unwrap_some, Runtime.getArray_of array,
        if_neg inside, bind, Except.bind, Bool.not_true, Bool.false_eq_true, if_false]

theorem Runtime.ensure_first (consistent : runtime.roots.Consistent)
    (vec : runtime.heap self = some (.vec none 0)) (requested : requestedCapacity minCapacity = .ok wanted) {ptr : Nat}
    (fast : environment.allocFast runtime.heap wanted = some ptr) (word : wanted < 2 ^ 64) :
    ∃ next, Vec.ensureCapacity environment safepoint self minCapacity runtime = .ok (true, next) ∧
      Extends runtime.roots next.roots ∧ VecAt next.heap self ([] : List α) wanted := by
  obtain ⟨filled, allocated, adds, array, others⟩ := @allocArray_fast _ _ _ safepoint consistent _ _ fast
  obtain ⟨apart, kept⟩ := others self _ vec
  obtain ⟨later, stored, consistent, refs⟩ := adds.storeBacking kept
  let next : Runtime α := ⟨(filled.setObject self (.vec (some ptr) 0)).heap, later⟩
  change filled.storeBacking self runtime.roots.refs.length = .ok next at stored
  have vecBehind : next.heap self = some (.vec (some ptr) 0) := setObject_here _ _
  have arrayBehind : next.heap ptr = some (.array (List.replicate wanted none)) :=
    (setObject_there (Ne.symm apart) _).trans array
  refine ⟨next, ?_, ⟨consistent, _, refs⟩, ?_⟩
  · have inside : ¬ wanted > (List.replicate wanted (none : Option α)).length := by simp
    simp only [Vec.ensureCapacity, requested, Runtime.getVec_of vec, allocated, stored, Runtime.getVec_of vecBehind,
      unwrap_some, Runtime.getArray_of arrayBehind, if_neg inside, bind, Except.bind, Bool.not_true, Bool.false_eq_true,
      if_false]
  · have backed : VecAt next.heap self ([] : List α) (0 + (List.replicate wanted (none : Option α)).length) := by
      refine VecAt.backed vecBehind arrayBehind ?_
      simpa using word
    simpa using backed

/-- An old array of one item is copied without a safepoint. -/
theorem Runtime.Adds.copyItems {roots : RootRefs} {old ptr : Nat} {items : List (Option α)}
    (adds : Adds roots runtime.roots ptr) (source : runtime.heap old = some (.array items))
    (target : runtime.heap ptr = some (.array (List.replicate wanted none))) (single : items.length ≤ 1)
    (larger : items.length < wanted) :
    ∃ next, runtime.copyItems environment safepoint old roots.refs.length (List.range items.length) = .ok next ∧
      next.roots = runtime.roots ∧ (∀ other ≠ ptr, next.heap other = runtime.heap other) ∧
      next.heap ptr = some (.array (items ++ List.replicate (wanted - items.length) none)) := by
  cases items with
  | nil => exact ⟨runtime, rfl, rfl, fun _ _ => rfl, target⟩
  | cons item rest =>
      have alone : rest = [] := by
        rw [← List.length_eq_zero_iff]
        rw [List.length_cons] at single
        omega
      subst alone
      obtain ⟨more, total⟩ := Nat.exists_eq_add_of_lt larger
      rw [List.length_singleton, Nat.add_comm 1 more] at total
      have inside : 0 < (List.replicate wanted (none : Option α)).length := by
        rw [List.length_replicate]
        exact Nat.lt_trans Nat.zero_lt_one larger
      refine ⟨runtime.setObject ptr (.array ((List.replicate wanted none).set 0 item)), ?_, rfl, ?_, ?_⟩
      · simp only [List.length_singleton, List.range_one, Runtime.copyItems, Runtime.getArray_of source,
          List.getElem?_cons_zero, unwrap_some, adds.getPtr, Runtime.setItem_of target inside, Nat.zero_mod, ne_eq,
          not_true, if_false, bind, Except.bind]
      · intro other different
        exact setObject_there different _
      · rw [setObject_here, total, List.length_singleton]
        rfl

theorem Runtime.ensure_grow (consistent : runtime.roots.Consistent) {old ptr : Nat}
    {spare : List (Option α)} (vec : runtime.heap self = some (.vec (some old) values.length))
    (array : runtime.heap old = some (.array (values.map some ++ spare)))
    (requested : requestedCapacity minCapacity = .ok wanted) (single : values.length + spare.length ≤ 1)
    (larger : values.length + spare.length < wanted) (fast : environment.allocFast runtime.heap wanted = some ptr)
    (word : wanted < 2 ^ 64) :
    ∃ next, Vec.ensureCapacity environment safepoint self minCapacity runtime = .ok (true, next) ∧
      Extends runtime.roots next.roots ∧ VecAt next.heap self values wanted := by
  have length : (values.map some ++ spare).length = values.length + spare.length := by
    rw [List.length_append, List.length_map]
  obtain ⟨filled, allocated, adds, zeroed, others⟩ := @allocArray_fast _ _ _ safepoint consistent _ _ fast
  obtain ⟨vecApart, keptVec⟩ := others self _ vec
  obtain ⟨arrayApart, keptArray⟩ := others old _ array
  obtain ⟨copied, copies, sameRoots, untouched, target⟩ :=
    @Adds.copyItems _ environment _ safepoint _ _ _ _ _ adds keptArray zeroed (length ▸ single) (length ▸ larger)
  have copiedVec := (untouched self vecApart).trans keptVec
  rw [← sameRoots] at adds
  obtain ⟨later, stored, consistent, refs⟩ := adds.storeBacking copiedVec
  let next : Runtime α := ⟨(copied.setObject self (.vec (some ptr) values.length)).heap, later⟩
  change copied.storeBacking self runtime.roots.refs.length = .ok next at stored
  refine ⟨next, ?_, ⟨consistent, _, refs⟩, ?_⟩
  · have grows : wanted > (values.map some ++ spare).length := length ▸ larger
    simp only [Vec.ensureCapacity, requested, Runtime.getVec_of vec, unwrap_some, Runtime.getArray_of array,
      if_pos grows, allocated, Runtime.getVec_of keptVec, Runtime.getArray_of keptArray, copies, stored, bind,
      Except.bind, Bool.not_true, Bool.false_eq_true, if_false]
  · have backing : next.heap ptr = some (.array (values.map some ++ (spare ++ List.replicate
        (wanted - (values.map some ++ spare).length) none))) := by
      rw [← List.append_assoc]
      exact (setObject_there (Ne.symm vecApart) _).trans target
    have total : values.length + (spare ++ List.replicate (wanted - (values.map some ++ spare).length)
        (none : Option α)).length = wanted := by
      rw [List.length_append, List.length_replicate, length]
      omega
    have backed := VecAt.backed (setObject_here _ _ : next.heap self = _) backing (total.symm ▸ word)
    rwa [total] at backed

/-- A call that returns had room, or allocated the first array or one behind a single item. -/
theorem VecAt.ensure_returned (vec : VecAt runtime.heap self values capacity)
    (borrowed : Runtime.Borrowed runtime.roots safepoint holder) (requested : requestedCapacity minCapacity = .ok wanted)
    {result : Bool × Runtime α}
    (returned : Vec.ensureCapacity environment safepoint self minCapacity runtime = .ok result) :
    wanted ≤ capacity ∨ capacity ≤ 1 ∧ (environment.allocFast runtime.heap wanted).isSome := by
  by_cases enough : wanted ≤ capacity
  · exact .inl enough
  right
  cases fast : environment.allocFast runtime.heap wanted with
  | none =>
      exfalso
      cases allocated : runtime.allocArray environment safepoint wanted with
      | ok result => exact borrowed.allocArray_slow fast allocated
      | error panic =>
          cases vec with
          | empty vec =>
              simp only [Vec.ensureCapacity, requested, Runtime.getVec_of vec, allocated, bind, Except.bind] at returned
              cases returned
          | @backed ptr _ spare vec array =>
              have grows : wanted > (values.map some ++ spare).length := by
                rw [List.length_append, List.length_map]
                omega
              simp only [Vec.ensureCapacity, requested, Runtime.getVec_of vec, unwrap_some, Runtime.getArray_of array,
                if_pos grows, allocated, bind, Except.bind, Bool.not_true, Bool.false_eq_true, if_false] at returned
              cases returned
  | some ptr =>
      refine ⟨?_, rfl⟩
      cases vec with
      | empty => exact Nat.zero_le 1
      | @backed old _ spare vec array =>
          by_contra several
          have length : (values.map some ++ spare).length = values.length + spare.length := by
            rw [List.length_append, List.length_map]
          have grows : wanted > (values.map some ++ spare).length := by omega
          obtain ⟨filled, allocated, adds, _, others⟩ :=
            @Runtime.allocArray_fast _ _ _ safepoint borrowed.consistent _ _ fast
          obtain ⟨_, keptVec⟩ := others self _ vec
          obtain ⟨_, keptArray⟩ := others old _ array
          simp only [Vec.ensureCapacity, requested, Runtime.getVec_of vec, unwrap_some, Runtime.getArray_of array,
            if_pos grows, allocated, Runtime.getVec_of keptVec, Runtime.getArray_of keptArray, bind_eq_ok,
            Except.ok.injEq, exists_eq_left', Bool.not_true, Bool.false_eq_true, if_false] at returned
          obtain ⟨_, copied, _⟩ := returned
          have second : 1 ∈ List.range (values.map some ++ spare).length := by
            rw [List.mem_range]
            omega
          exact Runtime.Borrowed.copyItems_panics (borrowed.adds adds) second (by decide) copied

/-- The capacity for one more item can be had: there is room, or the array is put in the heap
at once and takes the place of none or of one of at most one item. -/
def Extensible (environment : Environment α) (heap : Heap α) (len capacity : Nat) : Prop :=
  len < 2 ^ 63 ∧ (roundedUp (len + 1) ≤ capacity ∨
    capacity ≤ 1 ∧ (environment.allocFast heap (roundedUp (len + 1))).isSome)

theorem Extensible.requested {heap : Heap α} {len : Nat} (extensible : Extensible environment heap len capacity) :
    checkedAdd len 1 = .ok (len + 1) ∧ requestedCapacity (len + 1) = .ok (roundedUp (len + 1)) ∧
      roundedUp (len + 1) < 2 ^ 64 := by
  have short := extensible.1
  have inside : roundedUp (len + 1) ≤ 2 ^ 63 := roundedUp_le (by omega)
  refine ⟨?_, (requestedCapacity_eq_ok (by omega)).mpr ⟨by omega, rfl⟩, by omega⟩
  rw [checkedAdd, if_pos (by omega)]

theorem VecAt.ensured (vec : VecAt runtime.heap self values capacity) (safepoint : List Nat)
    (consistent : runtime.roots.Consistent)
    (extensible : Extensible environment runtime.heap values.length capacity) :
    ∃ next, Vec.ensureCapacity environment safepoint self (values.length + 1) runtime = .ok (true, next) ∧
      Runtime.Extends runtime.roots next.roots ∧
      VecAt next.heap self values (max capacity (roundedUp (values.length + 1))) := by
  obtain ⟨_, requested, word⟩ := extensible.requested
  have positive : 0 < roundedUp (values.length + 1) := Nat.lt_of_lt_of_le (Nat.succ_pos _) (le_roundedUp _)
  by_cases enough : roundedUp (values.length + 1) ≤ capacity
  · rw [Nat.max_eq_left enough]
    exact ⟨runtime, vec.ensure_enough requested positive enough, .refl consistent, vec⟩
  · have larger := Nat.lt_of_not_le enough
    rw [Nat.max_eq_right (Nat.le_of_lt larger)]
    obtain ⟨single, fast⟩ := extensible.2.resolve_left enough
    obtain ⟨ptr, fast⟩ := Option.isSome_iff_exists.mp fast
    cases vec with
    | empty vec => exact Runtime.ensure_first consistent vec requested fast word
    | backed vec array => exact Runtime.ensure_grow consistent vec array requested single larger fast word

/-- Otherwise the call panics, or the addition that makes its argument does. -/
theorem VecAt.extensible (vec : VecAt runtime.heap self values capacity)
    (borrowed : Runtime.Borrowed runtime.roots safepoint holder) {minCapacity : Nat} {result : Bool × Runtime α}
    (added : checkedAdd values.length 1 = .ok minCapacity)
    (returned : Vec.ensureCapacity environment safepoint self minCapacity runtime = .ok result) :
    Extensible environment runtime.heap values.length capacity ∧ minCapacity = values.length + 1 := by
  rw [checkedAdd] at added
  split at added
  · next word =>
      cases added
      cases requested : requestedCapacity (values.length + 1) with
      | error panic =>
          simp only [Vec.ensureCapacity, requested, bind, Except.bind] at returned
          cases returned
      | ok wanted =>
          have room := vec.ensure_returned borrowed requested returned
          obtain ⟨short, rfl⟩ := (requestedCapacity_eq_ok word).mp requested
          exact ⟨⟨by omega, room⟩, rfl⟩
  · cases added

/-- A heap in which an array goes where nothing is, and a collector that moves nothing. -/
def Environment.still : Environment α where
  allocFast heap _ := (List.range 8).find? fun ptr => (heap ptr).isNone
  collect _ := ⟨id, id, id⟩
  allocSlow heap _ := (List.range 8).find? fun ptr => (heap ptr).isNone
  fresh heap len ptr fast := by
    have free := List.find?_some fast
    exact Option.isNone_iff_eq_none.mp free
  freshSlow heap len ptr slow := by
    have free := List.find?_some slow
    exact Option.isNone_iff_eq_none.mp free

/-- An empty vector at 0, and the one reference there is. -/
def Runtime.emptyVec : Runtime α where
  heap := Function.update (fun _ => none) 0 (some (.vec none 0))
  roots := ⟨⟨[none], [true], 0, 1⟩, [some ⟨some 0, 0⟩]⟩

theorem Runtime.emptyVec_consistent : (emptyVec : Runtime α).roots.Consistent :=
  @RootRefs.Consistent.run .debug _ [.addPtr 0] rfl

theorem Runtime.emptyVec_borrowed : Borrowed (emptyVec : Runtime α).roots [] 0 where
  consistent := emptyVec_consistent
  loaded := ⟨⟨some 0, 0⟩, 0, rfl, rfl⟩
  outside := List.not_mem_nil

/-- Two items in an array of four, and the one reference there is to the vector. -/
def Runtime.filledVec : Runtime Nat where
  heap := Function.update (Function.update (fun _ => none) 0 (some (.vec (some 1) 2))) 1
    (some (.array [some 5, some 6, none, none]))
  roots := (emptyVec : Runtime Nat).roots

theorem Runtime.filledVec_at : VecAt filledVec.heap 0 [5, 6] 4 :=
  @VecAt.backed _ _ _ 1 [5, 6] [none, none] rfl rfl (by decide)

end UwUGC.PlusAlloc
