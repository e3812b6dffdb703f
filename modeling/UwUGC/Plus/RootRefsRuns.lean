import UwUGC.Plus.RootRefsProperties

/-! Runs of the references of one thread: what a safepoint check tells, and what a load
brings back behind any number of collections. -/

set_option autoImplicit false

namespace UwUGC.Plus

/-- Where a pointer ends up behind some moves, the first one first. -/
def moved (moves : List (Nat → Nat)) (ptr : Nat) : Nat := moves.foldl (fun ptr visitor => visitor ptr) ptr

namespace RootRefs

variable {build : Build} {roots next : RootRefs} {ref ptr : Nat} {raw : RootRefRaw} {action : Action}

/-- The state of a thread whose references and root set agree. -/
def Consistent (roots : RootRefs) : Prop := Sound roots.inner roots.live

theorem mapPointers_set (roots : RootRefs) (moves : List (Nat → Nat)) :
    (roots.mapPointers moves).inner.set = roots.inner.set.map (Option.map (moved moves)) := by
  simp only [mapPointers]
  generalize roots.inner.set = set
  induction moves generalizing set with
  | nil =>
      have same : moved [] = id := rfl
      simp [same]
  | cons visitor rest ih =>
      rw [List.foldl_cons, ih, List.map_map]
      refine List.map_congr_left fun slot _ => ?_
      cases slot <;> rfl

theorem mapPointers_slot (roots : RootRefs) (moves : List (Nat → Nat)) (idx held : Nat)
    (slot : roots.inner.set[idx]? = some (some held)) :
    (roots.mapPointers moves).inner.set[idx]? = some (some (moved moves held)) := by
  rw [mapPointers_set, List.getElem?_map, slot]
  rfl

theorem Consistent.mapPointers (consistent : roots.Consistent) (moves : List (Nat → Nat)) :
    (roots.mapPointers moves).Consistent := by
  constructor
  case exist => exact consistent.exist
  case stored => exact consistent.stored
  case distinct => exact consistent.distinct
  case sized =>
    rw [mapPointers_set, List.length_map]
    exact consistent.sized
  case used => exact consistent.used
  case slots =>
    intro idx
    rw [mapPointers_set, List.getElem?_map]
    refine Iff.trans ?_ (consistent.slots idx)
    cases roots.inner.set[idx]? with
    | none => simp
    | some slot => cases slot <;> simp

theorem live_at (found : roots.refs[ref]? = some (some raw)) :
    ∃ others, roots.live.Perm (raw :: others) ∧
      (∀ later, (roots.refs.set ref (some later)).reduceOption.Perm (later :: others)) ∧
      (roots.refs.set ref none).reduceOption.Perm others := by
  obtain ⟨below, here⟩ := List.getElem?_eq_some_iff.mp found
  have split : roots.refs = roots.refs.take ref ++ some raw :: roots.refs.drop (ref + 1) := by
    rw [← here, List.getElem_cons_drop, List.take_append_drop]
  refine ⟨(roots.refs.take ref).reduceOption ++ (roots.refs.drop (ref + 1)).reduceOption, ?_, ?_, ?_⟩
  · have whole := congrArg List.reduceOption split
    rw [List.reduceOption_append, List.reduceOption_cons_of_some] at whole
    rw [live, whole]
    exact List.perm_middle
  · intro later
    rw [List.set_eq_take_append_cons_drop, if_pos below, List.reduceOption_append, List.reduceOption_cons_of_some]
    exact List.perm_middle
  · rw [List.set_eq_take_append_cons_drop, if_pos below, List.reduceOption_append, List.reduceOption_cons_of_none]

theorem Consistent.addPtr (consistent : roots.Consistent) (ptr : Nat) :
    ∃ next, roots.addPtr ptr = some next ∧ next.Consistent ∧
      (∀ (ref : Nat) (raw : RootRefRaw), roots.refs[ref]? = some (some raw) → next.refs[ref]? = some (some raw)) ∧
      ∀ (idx held : Nat), roots.inner.set[idx]? = some (some held) → next.inner.set[idx]? = some (some held) := by
  obtain ⟨added, inner, returned, _, sound, kept⟩ := Sound.addPtr consistent ptr
  refine ⟨{ inner, refs := roots.refs ++ [some added] }, by simp only [RootRefs.addPtr, returned], ?_, ?_, kept⟩
  · refine Sound.perm sound ?_
    have whole : (roots.refs ++ [some added]).reduceOption = roots.live ++ [added] := by
      rw [List.reduceOption_append, List.reduceOption_singleton]
      rfl
    change (added :: roots.live).Perm (roots.refs ++ [some added]).reduceOption
    rw [whole]
    exact (List.perm_append_singleton added roots.live).symm
  · intro ref raw found
    rw [List.getElem?_append_left (List.getElem?_eq_some_iff.mp found).1]
    exact found

theorem Consistent.store (build : Build) (consistent : roots.Consistent) (found : roots.refs[ref]? = some (some raw))
    (loaded : raw.ptr = some ptr) :
    ∃ next, roots.step build (.store ref) = some next ∧ next.Consistent ∧
      next.refs = roots.refs.set ref (some { raw with ptr := none }) ∧
      next.inner.set = roots.inner.set.set raw.idx (some ptr) := by
  obtain ⟨others, before, behind, _⟩ := live_at found
  obtain ⟨returned, sound⟩ := (consistent.perm before).store loaded
  refine ⟨{ inner := _, refs := roots.refs.set ref (some { raw with ptr := none }) }, ?_,
    sound.perm (behind { raw with ptr := none }).symm, rfl, rfl⟩
  simp only [step, found, returned]

theorem Consistent.load (build : Build) (consistent : roots.Consistent) (found : roots.refs[ref]? = some (some raw))
    (stored : raw.ptr = none) (slot : roots.inner.set[raw.idx]? = some (some ptr)) :
    ∃ next, roots.step build (.load ref) = some next ∧ next.Consistent ∧
      next.refs = roots.refs.set ref (some { raw with ptr := some ptr }) ∧
      next.inner.set = roots.inner.set.set raw.idx none := by
  obtain ⟨others, before, behind, _⟩ := live_at found
  obtain ⟨returned, sound⟩ := (consistent.perm before).load build stored slot
  refine ⟨{ inner := _, refs := roots.refs.set ref (some { raw with ptr := some ptr }) }, ?_,
    sound.perm (behind { raw with ptr := some ptr }).symm, rfl, rfl⟩
  simp only [step, found, returned]

theorem Consistent.drop (build : Build) (consistent : roots.Consistent) (found : roots.refs[ref]? = some (some raw)) :
    ∃ next, roots.step build (.drop ref) = some next ∧ next.Consistent ∧
      next.refs = roots.refs.set ref none ∧ next.inner.set = roots.inner.set.set raw.idx none := by
  obtain ⟨others, before, _, behind⟩ := live_at found
  obtain ⟨returned, sound⟩ := (consistent.perm before).drop build
  refine ⟨{ inner := Sound.dropped roots.inner raw, refs := roots.refs.set ref none }, ?_,
    sound.perm behind.symm, rfl, rfl⟩
  simp only [step, found, returned]

def Action.moves : Action → List (Nat → Nat)
  | .safepoint moves => moves
  | .allocSlow moves _ => moves
  | _ => []

inductive Moves (roots : RootRefs) : Action → RootRefs → Prop where
  | keeps {action : Action} {next : RootRefs}
      (refs : ∀ (ref : Nat) (raw : RootRefRaw), roots.refs[ref]? = some (some raw) →
        next.refs[ref]? = some (some raw))
      (slots : ∀ (idx held : Nat), roots.inner.set[idx]? = some (some held) →
        next.inner.set[idx]? = some (some (moved action.moves held))) : Moves roots action next
  | store {ref ptr : Nat} {raw : RootRefRaw} {next : RootRefs} (found : roots.refs[ref]? = some (some raw))
      (loaded : raw.ptr = some ptr) (refs : next.refs = roots.refs.set ref (some { raw with ptr := none }))
      (slots : next.inner.set = roots.inner.set.set raw.idx (some ptr)) : Moves roots (.store ref) next
  | load {ref ptr : Nat} {raw : RootRefRaw} {next : RootRefs} (found : roots.refs[ref]? = some (some raw))
      (refs : next.refs = roots.refs.set ref (some { raw with ptr := some ptr }))
      (slots : next.inner.set = roots.inner.set.set raw.idx none) : Moves roots (.load ref) next
  | drop {ref : Nat} {raw : RootRefRaw} {next : RootRefs} (found : roots.refs[ref]? = some (some raw))
      (refs : next.refs = roots.refs.set ref none)
      (slots : next.inner.set = roots.inner.set.set raw.idx none) : Moves roots (.drop ref) next

theorem Moves.mapped {moves : List (Nat → Nat)} (same : action.moves = moves) :
    Moves roots action (roots.mapPointers moves) := by
  refine .keeps (fun _ _ found => found) ?_
  intro idx held slot
  rw [same]
  exact mapPointers_slot roots moves idx held slot

theorem Moves.refused (unmoved : action.moves = []) : Moves roots action roots := by
  refine .keeps (fun _ _ found => found) ?_
  intro idx held slot
  rw [unmoved]
  exact slot

def Action.calledOn : Action → Option Nat
  | .store ref => some ref
  | .load ref => some ref
  | .drop ref => some ref
  | _ => none

theorem step_live (taken : roots.step build action = some next) (named : action.calledOn = some ref) :
    ∃ raw, roots.refs[ref]? = some (some raw) := by
  cases found : roots.refs[ref]? with
  | none => cases action <;> cases named <;> simp [RootRefs.step, found] at taken
  | some entry =>
      cases entry with
      | none => cases action <;> cases named <;> simp [RootRefs.step, found] at taken
      | some raw => exact ⟨raw, rfl⟩

theorem load_slot {inner : Inner} {after : RootRefRaw × Inner} (returned : raw.load build inner = (.ok (), after)) :
    ∃ ptr, inner.set[raw.idx]? = some (some ptr) := by
  unfold RootRefRaw.load at returned
  split at returned
  · cases returned
  · simp only at returned
    split at returned
    · cases returned
    · cases returned
    · next ptr slot => exact ⟨ptr, slot⟩

theorem Consistent.load_stored (consistent : roots.Consistent) (found : roots.refs[ref]? = some (some raw))
    (taken : roots.step build (.load ref) = some next) :
    raw.ptr = none ∧ ∃ ptr, roots.inner.set[raw.idx]? = some (some ptr) := by
  have slot : ∃ ptr, roots.inner.set[raw.idx]? = some (some ptr) := by
    simp only [RootRefs.step, found] at taken
    split at taken
    · next returned => exact load_slot returned
    · cases taken
  refine ⟨?_, slot⟩
  cases loaded : raw.ptr with
  | none => rfl
  | some held =>
      obtain ⟨others, before, _, _⟩ := live_at found
      have empty := (consistent.perm before).slot_loaded (by simp [loaded])
      obtain ⟨ptr, filled⟩ := slot
      rw [empty] at filled
      cases filled

theorem Consistent.step (consistent : roots.Consistent) (taken : roots.step build action = some next) :
    next.Consistent ∧ Moves roots action next := by
  cases action with
  | addPtr ptr =>
      obtain ⟨added, stepped, behind, refs, slots⟩ := consistent.addPtr ptr
      cases stepped.symm.trans taken
      exact ⟨behind, .keeps refs slots⟩
  | store ref =>
      obtain ⟨raw, found⟩ := step_live taken rfl
      cases loaded : raw.ptr with
      | none => simp [RootRefs.step, found, RootRefRaw.store, loaded] at taken
      | some ptr =>
          obtain ⟨stored, stepped, behind, refs, slots⟩ := consistent.store build found loaded
          cases stepped.symm.trans taken
          exact ⟨behind, .store found loaded refs slots⟩
  | load ref =>
      obtain ⟨raw, found⟩ := step_live taken rfl
      obtain ⟨stored, ptr, slot⟩ := consistent.load_stored found taken
      obtain ⟨loaded, stepped, behind, refs, slots⟩ := consistent.load build found stored slot
      cases stepped.symm.trans taken
      exact ⟨behind, .load found refs slots⟩
  | drop ref =>
      obtain ⟨raw, found⟩ := step_live taken rfl
      obtain ⟨left, stepped, behind, refs, slots⟩ := consistent.drop build found
      cases stepped.symm.trans taken
      exact ⟨behind, .drop found refs slots⟩
  | safepoint moves =>
      simp only [RootRefs.step] at taken
      split at taken
      · cases taken
        exact ⟨consistent.mapPointers moves, .mapped rfl⟩
      · obtain ⟨empty, same⟩ := Option.ite_none_right_eq_some.mp taken
        cases same
        exact ⟨consistent, .refused (List.isEmpty_iff.mp empty)⟩
  | allocSlow moves result =>
      simp only [RootRefs.step] at taken
      split at taken
      · cases result with
        | none =>
            cases taken
            exact ⟨consistent.mapPointers moves, .mapped rfl⟩
        | some ptr =>
            obtain ⟨added, stepped, behind, refs, slots⟩ := (consistent.mapPointers moves).addPtr ptr
            cases stepped.symm.trans taken
            refine ⟨behind, .keeps refs ?_⟩
            intro idx held slot
            exact slots idx _ (mapPointers_slot roots moves idx held slot)
      · obtain ⟨⟨empty, _⟩, same⟩ := Option.ite_none_right_eq_some.mp taken
        cases same
        exact ⟨consistent, .refused (List.isEmpty_iff.mp empty)⟩

theorem Consistent.idx_ne (consistent : roots.Consistent) {other : Nat} {otherRaw : RootRefRaw}
    (found : roots.refs[ref]? = some (some raw)) (otherFound : roots.refs[other]? = some (some otherRaw))
    (differs : ref ≠ other) : raw.idx ≠ otherRaw.idx := by
  obtain ⟨others, before, _, behind⟩ := live_at found
  have member : otherRaw ∈ others := by
    apply behind.mem_iff.mp
    rw [List.reduceOption_mem_iff]
    apply List.mem_of_getElem?
    rw [List.getElem?_set_ne differs]
    exact otherFound
  have fresh := (List.nodup_cons.mp (consistent.perm before).distinct).1
  exact fun same => fresh (List.mem_map.mpr ⟨otherRaw, member, same.symm⟩)

/-- A reference is stored, with this pointer in its slot. -/
structure Holds (roots : RootRefs) (ref : Nat) (raw : RootRefRaw) (ptr : Nat) : Prop where
  found : roots.refs[ref]? = some (some raw)
  stored : raw.ptr = none
  slot : roots.inner.set[raw.idx]? = some (some ptr)

theorem Holds.step (holds : Holds roots ref raw ptr) (consistent : roots.Consistent)
    (taken : roots.step build action = some next) (load : action ≠ .load ref) (drop : action ≠ .drop ref) :
    Holds next ref raw (moved action.moves ptr) := by
  obtain ⟨found, stored, slot⟩ := holds
  have elsewhere {other : Nat} {otherRaw : RootRefRaw} (otherFound : roots.refs[other]? = some (some otherRaw))
      (differs : other ≠ ref) {entry : Option RootRefRaw} {content : Option Nat}
      (refs : next.refs = roots.refs.set other entry)
      (slots : next.inner.set = roots.inner.set.set otherRaw.idx content) : Holds next ref raw ptr := by
    refine ⟨?_, stored, ?_⟩
    · rw [refs, List.getElem?_set_ne differs]
      exact found
    · rw [slots, List.getElem?_set_ne (consistent.idx_ne otherFound found differs)]
      exact slot
  cases (consistent.step taken).2 with
  | keeps refs slots => exact ⟨refs ref raw found, stored, slots raw.idx ptr slot⟩
  | @store other _ _ _ otherFound loaded refs slots =>
      refine elsewhere otherFound ?_ refs slots
      intro same
      rw [same, found] at otherFound
      cases otherFound
      rw [stored] at loaded
      cases loaded
  | load otherFound refs slots => exact elsewhere otherFound (fun same => load (same ▸ rfl)) refs slots
  | drop otherFound refs slots => exact elsewhere otherFound (fun same => drop (same ▸ rfl)) refs slots

theorem moved_append (moves later : List (Nat → Nat)) (ptr : Nat) :
    moved (moves ++ later) ptr = moved later (moved moves ptr) :=
  List.foldl_append

/-- The root set and the references agree, a safepoint check tells whether all of them are stored,
and a load brings back what was stored. -/
structure Bookkeeping (build : Build) (actions : List Action) (roots : RootRefs) : Prop where
  sound : Sound roots.inner roots.live
  /-- A safepoint is passed exactly when no live reference holds a raw pointer. -/
  checked : ∀ text, roots.inner.checkStored text = .ok () ↔ ∀ raw ∈ roots.live, raw.ptr = none
  /-- Then the collector sees every pointer that can be loaded. -/
  visited : ∀ raw ∈ roots.live, raw.ptr = none →
    ∃ ptr ∈ roots.inner.set.iterPointers, roots.inner.set[raw.idx]? = some (some ptr)
  adds : ∀ ptr, ∃ next, roots.step build (.addPtr ptr) = some next
  returns : ∀ (ref : Nat) raw, roots.refs[ref]? = some (some raw) →
    (raw.ptr ≠ none → ∃ next, roots.step build (.store ref) = some next) ∧
    (raw.ptr = none → ∃ next, roots.step build (.load ref) = some next) ∧
    ∃ next, roots.step build (.drop ref) = some next
  /-- A load brings back the pointer of the store before it, moved as the collector did. -/
  loads : ∀ past ref later before raw ptr, actions = past ++ .store ref :: later →
    Transition.run (step build) new past = some before → before.refs[ref]? = some (some raw) → raw.ptr = some ptr →
    (∀ action ∈ later, action ≠ .load ref ∧ action ≠ .drop ref) →
    ∃ next, roots.step build (.load ref) = some next ∧
      next.refs[ref]? = some (some { raw with ptr := some (moved (later.flatMap Action.moves) ptr) })

theorem Consistent.run {actions : List Action} (ran : Transition.run (RootRefs.step build) .new actions = some roots) :
    roots.Consistent :=
  Transition.run_invariant Consistent ran .new fun _ _ _ consistent taken => (consistent.step taken).1

theorem Consistent.checked (consistent : roots.Consistent) (text : String) :
    roots.inner.checkStored text = .ok () ↔ ∀ raw ∈ roots.live, raw.ptr = none := by
  rw [Inner.checkStored, assert_eq_ok, decide_eq_true_eq, consistent.stored, consistent.exist,
    List.countP_eq_length]
  simp only [Option.isNone_iff_eq_none]

theorem Holds.loads (holds : Holds roots ref raw ptr) (consistent : roots.Consistent) :
    ∃ next, roots.step build (.load ref) = some next ∧
      next.refs[ref]? = some (some { raw with ptr := some ptr }) := by
  obtain ⟨next, taken, _, refs, _⟩ := consistent.load build holds.found holds.stored holds.slot
  refine ⟨next, taken, ?_⟩
  rw [refs, List.getElem?_set_self (List.getElem?_eq_some_iff.mp holds.found).1]

theorem Holds.run {later : List Action} (holds : Holds roots ref raw ptr) (consistent : roots.Consistent)
    (ran : Transition.run (RootRefs.step build) roots later = some next)
    (others : ∀ action ∈ later, action ≠ .load ref ∧ action ≠ .drop ref) :
    Holds next ref raw (moved (later.flatMap Action.moves) ptr) := by
  induction later generalizing roots ptr with
  | nil =>
      cases ran
      exact holds
  | cons action rest ih =>
      obtain ⟨middle, taken, behind⟩ := Transition.run_cons_eq_some.mp ran
      obtain ⟨load, drop⟩ := others action List.mem_cons_self
      rw [List.flatMap_cons, moved_append]
      exact ih (holds.step consistent taken load drop) (consistent.step taken).1 behind
        fun other member => others other (List.mem_cons_of_mem _ member)

/-- The root references of a thread stay in step with its root set through every run. -/
theorem bookkeeping_sound {actions : List Action} (ran : Transition.run (step build) new actions = some roots) :
    Bookkeeping build actions roots := by
  have consistent := Consistent.run ran
  constructor
  case sound => exact consistent
  case checked => exact consistent.checked
  case visited =>
    intro raw member stored
    obtain ⟨ptr, slot⟩ := consistent.slot_stored member stored
    exact ⟨ptr, RootSet.mem_iterPointers.mpr (List.mem_of_getElem? slot), slot⟩
  case adds =>
    intro ptr
    obtain ⟨next, taken, _⟩ := consistent.addPtr ptr
    exact ⟨next, taken⟩
  case returns =>
    intro ref raw found
    refine ⟨?_, ?_, ?_⟩
    · intro loaded
      obtain ⟨ptr, loaded⟩ := Option.ne_none_iff_exists'.mp loaded
      obtain ⟨next, taken, _⟩ := consistent.store build found loaded
      exact ⟨next, taken⟩
    · intro stored
      have member : raw ∈ roots.live := List.reduceOption_mem_iff.mpr (List.mem_of_getElem? found)
      obtain ⟨ptr, slot⟩ := consistent.slot_stored member stored
      obtain ⟨next, taken, _⟩ := consistent.load build found stored slot
      exact ⟨next, taken⟩
    · obtain ⟨next, taken, _⟩ := consistent.drop build found
      exact ⟨next, taken⟩
  case loads =>
    intro past ref later before raw ptr split reached found loaded others
    rw [split, Transition.run_append_eq_some] at ran
    obtain ⟨there, same, ran⟩ := ran
    rw [reached] at same
    cases same
    obtain ⟨stored, taken, behind⟩ := Transition.run_cons_eq_some.mp ran
    have earlier := Consistent.run reached
    obtain ⟨next, stepped, later, refs, slots⟩ := earlier.store build found loaded
    cases stepped.symm.trans taken
    have member : raw ∈ before.live := List.reduceOption_mem_iff.mpr (List.mem_of_getElem? found)
    have holds : Holds stored ref { raw with ptr := none } ptr := by
      refine ⟨?_, rfl, ?_⟩
      · rw [refs, List.getElem?_set_self (List.getElem?_eq_some_iff.mp found).1]
      · rw [slots, List.getElem?_set_self (earlier.idx_lt member)]
    exact (holds.run later behind others).loads consistent

/-- Two references, one of them stored over two collections and the other dropped. -/
theorem bookkeeping_sound_moves :
    ∃ roots, Transition.run (step .release) new [.addPtr 16, .addPtr 64, .store 0, .drop 1, .safepoint [(· + 8), (2 * ·)]] =
        some roots ∧
      ∃ next, roots.step .release (.load 0) = some next ∧ next.refs[0]? = some (some ⟨some 48, 0⟩) := by
  obtain ⟨roots, ran⟩ : ∃ roots, Transition.run (step .release) new
      [.addPtr 16, .addPtr 64, .store 0, .drop 1, .safepoint [(· + 8), (2 * ·)]] = some roots := ⟨_, rfl⟩
  refine ⟨roots, ran, ?_⟩
  exact (bookkeeping_sound ran).loads [.addPtr 16, .addPtr 64] 0 [.drop 1, .safepoint [(· + 8), (2 * ·)]]
    _ ⟨some 16, 0⟩ 16 rfl rfl rfl rfl (by simp)

end RootRefs

end UwUGC.Plus
