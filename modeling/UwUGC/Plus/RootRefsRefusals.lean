import UwUGC.Plus.RootRefsRuns

/-! Calls that refuse, with the panic caught: what they leave of the root set and of the
references of the thread. -/

set_option autoImplicit false

namespace UwUGC.Plus

namespace RootRefs

/-- A safepoint names the references that it stores and loads again, in their order. -/
inductive Call where
  | addPtr (ptr : Nat)
  | store (ref : Nat)
  | load (ref : Nat)
  | drop (ref : Nat)
  | safepoint (guarded : List Nat) (moves : List (Nat → Nat))
  | allocSlow (moves : List (Nat → Nat)) (result : Option Nat)

/-- What a call returns or panics with, and the state that it leaves. -/
abbrev Outcome := Except Panic Unit × RootRefs

def Live (roots : RootRefs) (ref : Nat) : Prop := ∃ raw, roots.refs[ref]? = some (some raw)

/-- The reference holds its pointer itself. -/
def Loaded (roots : RootRefs) (ref : Nat) : Prop := ∃ raw, roots.refs[ref]? = some (some raw) ∧ raw.ptr ≠ none

def onRef (method : RootRefRaw → Inner → Except Panic Unit × RootRefRaw × Inner) (roots : RootRefs) (ref : Nat) :
    Option Outcome :=
  match roots.refs[ref]? with
  | some (some raw) =>
      match method raw roots.inner with
      | (result, raw, inner) => some (result, { inner, refs := roots.refs.set ref (some raw) })
  | _ => none

/-- `for_each`: the first panic ends it. -/
def forEach (method : RootRefRaw → Inner → Except Panic Unit × RootRefRaw × Inner) (roots : RootRefs) :
    List Nat → Option Outcome
  | [] => some (.ok (), roots)
  | ref :: rest =>
      match roots.onRef method ref with
      | some (.ok (), roots) => forEach method roots rest
      | refused => refused

def addPtrOutcome (roots : RootRefs) (ptr : Nat) : Outcome :=
  match roots.inner.addPtr ptr with
  | (.ok ref, inner) => (.ok (), { inner, refs := roots.refs ++ [some ref] })
  | (.error panic, inner) => (.error panic, { roots with inner })

/-- The free function. The check lies between the two walks over the list. -/
def safepoint (build : Build) (roots : RootRefs) (guarded : List Nat) (moves : List (Nat → Nat)) : Option Outcome :=
  match roots.forEach RootRefRaw.store guarded with
  | some (.ok (), roots) =>
      match roots.inner.checkStored "There stil active RootReference, store them before safepoint" with
      | .ok () => (roots.mapPointers moves).forEach (RootRefRaw.load build) guarded
      | .error panic => some (.error panic, roots)
  | refused => refused

def allocSlow (roots : RootRefs) (moves : List (Nat → Nat)) (result : Option Nat) : Outcome :=
  match roots.inner.checkStored
    "There stil active RootReference, store them before calling alloc_slow (its implicitly also safepoint)" with
  | .ok () =>
      match result with
      | some ptr => (roots.mapPointers moves).addPtrOutcome ptr
      | none => (.ok (), roots.mapPointers moves)
  | .error panic => (.error panic, roots)

def perform (build : Build) (roots : RootRefs) : Call → Option Outcome
  | .addPtr ptr => some (roots.addPtrOutcome ptr)
  | .store ref => roots.onRef RootRefRaw.store ref
  | .load ref => roots.onRef (RootRefRaw.load build) ref
  | .drop ref =>
      match roots.refs[ref]? with
      | some (some raw) =>
          match raw.drop build roots.inner with
          | (result, inner) => some (result, { inner, refs := roots.refs.set ref none })
      | _ => none
  | .safepoint guarded moves => roots.safepoint build guarded moves
  | .allocSlow moves result => some (roots.allocSlow moves result)

def Call.named : Call → List Nat
  | .store ref => [ref]
  | .load ref => [ref]
  | .drop ref => [ref]
  | .safepoint guarded _ => guarded
  | _ => []

/-- A call borrows the references that it names. -/
def Callable (roots : RootRefs) (call : Call) : Prop := ∀ ref ∈ call.named, roots.Live ref

instance (roots : RootRefs) (ref : Nat) : Decidable (roots.Live ref) :=
  match found : roots.refs[ref]? with
  | some (some raw) => .isTrue ⟨raw, found⟩
  | some none => .isFalse (by simp [Live, found])
  | none => .isFalse (by simp [Live, found])

instance (roots : RootRefs) (call : Call) : Decidable (roots.Callable call) := inferInstanceAs (Decidable (∀ _ ∈ _, _))

/-- The state behind a call, whether it returned or its panic was caught. -/
def leaves (build : Build) (roots : RootRefs) (call : Call) : Option RootRefs :=
  if roots.Callable call then (roots.perform build call).map (·.2) else none

/-- If the call refuses, nothing has changed. -/
def RefusesIntact (build : Build) (roots : RootRefs) (call : Call) : Prop :=
  roots.Callable call → ∀ panic behind, roots.perform build call = some (.error panic, behind) → behind = roots

/-- A load of a loaded reference refuses intact only in a build that checks the counter, where that
is zero. A safepoint does where it has stored nothing yet, and it does not refuse where its list is
that of the loaded references. -/
def Harmless (build : Build) (roots : RootRefs) : Call → Prop
  | .load ref => roots.Loaded ref → build = .debug ∧ roots.inner.storedCount = 0
  | .safepoint guarded _ =>
      (∀ ref ∈ guarded.head?, ¬ roots.Loaded ref) ∨ (guarded.Nodup ∧ ∀ ref, roots.Loaded ref ↔ ref ∈ guarded)
  | _ => True

variable {build : Build} {roots next behind : RootRefs} {ref other : Nat} {raw : RootRefRaw} {guarded : List Nat} {result : Except Panic Unit}

theorem step_store (taken : roots.step build (.store ref) = some next) : roots.onRef RootRefRaw.store ref = some (.ok (), next) := by
  obtain ⟨raw, found⟩ := step_live taken rfl
  cases returned : raw.store roots.inner with
  | mk result behind =>
      simp only [step, found, returned] at taken
      simp only [onRef, found, returned]
      cases result with
      | error panic => cases taken
      | ok =>
          cases taken
          rfl

theorem step_load (taken : roots.step build (.load ref) = some next) : roots.onRef (RootRefRaw.load build) ref = some (.ok (), next) := by
  obtain ⟨raw, found⟩ := step_live taken rfl
  cases returned : raw.load build roots.inner with
  | mk result behind =>
      simp only [step, found, returned] at taken
      simp only [onRef, found, returned]
      cases result with
      | error panic => cases taken
      | ok =>
          cases taken
          rfl

theorem onRef_stored (found : roots.refs[ref]? = some (some raw)) (stored : raw.ptr = none) :
    roots.onRef RootRefRaw.store ref = some (.error .unwrapNone, roots) := by
  have same : roots.refs.set ref (some raw) = roots.refs := by
    obtain ⟨below, here⟩ := List.getElem?_eq_some_iff.mp found
    rw [← here, List.set_getElem_self]
  simp only [onRef, found, RootRefRaw.store, stored, same]

/-- A loaded reference has an empty slot. The counter has changed when the slot is looked at. -/
theorem Consistent.load_refused (build : Build) (consistent : roots.Consistent) (loaded : roots.Loaded ref) :
    ∃ panic behind, roots.onRef (RootRefRaw.load build) ref = some (.error panic, behind) ∧
      (behind = roots ↔ build = .debug ∧ roots.inner.storedCount = 0) := by
  obtain ⟨raw, found, holds⟩ := loaded
  obtain ⟨others, before, _, _⟩ := live_at found
  have empty := (consistent.perm before).slot_loaded holds
  have same : roots.refs.set ref (some raw) = roots.refs := by
    obtain ⟨below, here⟩ := List.getElem?_eq_some_iff.mp found
    rw [← here, List.set_getElem_self]
  have refused (storedCount : Nat) (counted : build.sub roots.inner.storedCount 1 = .ok storedCount) :
      roots.onRef (RootRefRaw.load build) ref = some (.error (.message "Slot is already loaded?"),
        { roots with inner := { roots.inner with storedCount } }) := by
    simp only [onRef, found, RootRefRaw.load, counted, empty, same]
  have changed (storedCount : Nat) (differs : storedCount ≠ roots.inner.storedCount) :
      { roots with inner := { roots.inner with storedCount } } ≠ roots := by
    intro intact
    exact differs (congrArg (·.inner.storedCount) intact)
  by_cases counted : 1 ≤ roots.inner.storedCount
  · refine ⟨_, _, refused _ (build.sub_of_le counted), iff_of_false (changed _ (by omega)) ?_⟩
    rintro ⟨_, zero⟩
    omega
  · cases build with
    | debug =>
        refine ⟨.message "attempt to subtract with overflow", roots, ?_, iff_of_true rfl ⟨rfl, by omega⟩⟩
        simp only [onRef, found, RootRefRaw.load, Build.sub, checkedSub, if_neg counted, same]
    | release =>
        have wraps : Build.release.sub roots.inner.storedCount 1 = .ok (roots.inner.storedCount + 2 ^ 64 - 1) := by
          rw [Build.sub, if_neg counted]
        refine ⟨_, _, refused _ wraps, iff_of_false (changed _ (by omega)) ?_⟩
        rintro ⟨debug, _⟩
        cases debug

/-- One store of the walk in front of a safepoint. -/
theorem Consistent.onRef_loaded (consistent : roots.Consistent) (loaded : roots.Loaded ref) :
    ∃ next, roots.onRef RootRefRaw.store ref = some (.ok (), next) ∧ next.Consistent ∧
      next.inner.storedCount = roots.inner.storedCount + 1 ∧ (∀ other, next.Live other ↔ roots.Live other) ∧
      ∀ other, next.Loaded other ↔ roots.Loaded other ∧ other ≠ ref := by
  obtain ⟨raw, found, holds⟩ := loaded
  obtain ⟨ptr, holds⟩ := Option.ne_none_iff_exists'.mp holds
  obtain ⟨next, taken, kept, refs, _⟩ := consistent.store .debug found holds
  have below := (List.getElem?_eq_some_iff.mp found).1
  have performed := step_store taken
  refine ⟨next, performed, kept, ?_, ?_, ?_⟩
  · obtain ⟨others, before, _, _⟩ := live_at found
    have returned := ((consistent.perm before).store holds).1
    simp only [onRef, found, returned, Option.some.injEq, Prod.mk.injEq, true_and] at performed
    rw [← performed]
  · intro other
    rw [Live, Live, refs]
    by_cases here : ref = other
    · subst here
      exact iff_of_true ⟨_, List.getElem?_set_self below⟩ ⟨raw, found⟩
    · rw [List.getElem?_set_ne here]
  · intro other
    rw [Loaded, Loaded, refs]
    by_cases here : ref = other
    · subst here
      simp [below]
    · rw [List.getElem?_set_ne here]
      simp [Ne.symm here]

/-- What the stores in front of a safepoint leave. -/
structure Stores (roots : RootRefs) (guarded : List Nat) (result : Except Panic Unit) (behind : RootRefs) : Prop where
  consistent : behind.Consistent
  counted : roots.inner.storedCount ≤ behind.inner.storedCount
  live : ∀ ref, behind.Live ref ↔ roots.Live ref
  returns : result = .ok () ↔ guarded.Nodup ∧ ∀ ref ∈ guarded, roots.Loaded ref
  loaded : result = .ok () → ∀ ref, behind.Loaded ref ↔ roots.Loaded ref ∧ ref ∉ guarded
  same : behind = roots ↔ ∀ ref ∈ guarded.head?, ¬ roots.Loaded ref

theorem Consistent.storeEach (consistent : roots.Consistent) (live : ∀ ref ∈ guarded, roots.Live ref) :
    ∃ result behind, roots.forEach RootRefRaw.store guarded = some (result, behind) ∧ Stores roots guarded result behind := by
  induction guarded generalizing roots with
  | nil => exact ⟨.ok (), roots, rfl, consistent, Nat.le_refl _, fun _ => Iff.rfl, by simp, by simp, by simp⟩
  | cons ref rest ih =>
      rw [List.forall_mem_cons] at live
      by_cases loaded : roots.Loaded ref
      · obtain ⟨next, performed, kept, count, alive, others⟩ := consistent.onRef_loaded loaded
        obtain ⟨result, behind, walked, stores⟩ := ih kept fun other member => (alive other).mpr (live.2 other member)
        have counted : roots.inner.storedCount < behind.inner.storedCount := by
          rw [← Nat.succ_le_iff, Nat.succ_eq_add_one, ← count]
          exact stores.counted
        refine ⟨result, behind, by simp only [forEach, performed, walked], stores.consistent, Nat.le_of_lt counted, ?_, ?_, ?_, ?_⟩
        · exact fun other => (stores.live other).trans (alive other)
        · rw [stores.returns, List.nodup_cons, List.forall_mem_cons]
          simp only [others, and_iff_right loaded]
          constructor
          · rintro ⟨distinct, each⟩
            exact ⟨⟨fun member => (each ref member).2 rfl, distinct⟩, fun other member => (each other member).1⟩
          · rintro ⟨⟨fresh, distinct⟩, each⟩
            refine ⟨distinct, fun other member => ⟨each other member, ?_⟩⟩
            rintro rfl
            exact fresh member
        · intro returned other
          rw [stores.loaded returned, others, List.mem_cons, not_or, and_assoc]
        · refine iff_of_false ?_ fun unloaded => unloaded ref rfl loaded
          rintro rfl
          exact Nat.lt_irrefl _ counted
      · obtain ⟨raw, found⟩ := live.1
        have stored : raw.ptr = none := by
          by_contra holds
          exact loaded ⟨raw, found, holds⟩
        refine ⟨.error .unwrapNone, roots, by simp only [forEach, onRef_stored found stored], consistent,
          Nat.le_refl _, fun _ => Iff.rfl, ?_, fun returned => (by cases returned), by simpa using loaded⟩
        refine iff_of_false (fun returned => by cases returned) ?_
        intro ⟨_, each⟩
        exact loaded (each ref List.mem_cons_self)

/-- Behind a check that is passed every load finds its pointer. -/
theorem Consistent.loadEach (build : Build) (consistent : roots.Consistent) (distinct : guarded.Nodup)
    (stored : ∀ ref ∈ guarded, roots.Live ref ∧ ¬ roots.Loaded ref) :
    ∃ behind, roots.forEach (RootRefRaw.load build) guarded = some (.ok (), behind) ∧ behind.Consistent := by
  induction guarded generalizing roots with
  | nil => exact ⟨roots, rfl, consistent⟩
  | cons ref rest ih =>
      rw [List.nodup_cons] at distinct
      rw [List.forall_mem_cons] at stored
      obtain ⟨⟨raw, found⟩, unloaded⟩ := stored.1
      have empty : raw.ptr = none := by
        by_contra holds
        exact unloaded ⟨raw, found, holds⟩
      obtain ⟨ptr, slot⟩ := consistent.slot_stored (List.reduceOption_mem_iff.mpr (List.mem_of_getElem? found)) empty
      obtain ⟨next, taken, kept, refs, _⟩ := consistent.load build found empty slot
      have others : ∀ other ∈ rest, next.Live other ∧ ¬ next.Loaded other := by
        intro other member
        have different : ref ≠ other := by
          rintro rfl
          exact distinct.1 member
        rw [Live, Loaded, refs, List.getElem?_set_ne different]
        exact stored.2 other member
      obtain ⟨behind, walked, last⟩ := ih kept distinct.2 others
      exact ⟨behind, by simp only [forEach, step_load taken, walked], last⟩

theorem Consistent.checked_iff (consistent : roots.Consistent) (text : String) :
    roots.inner.checkStored text = .ok () ↔ ∀ ref, ¬ roots.Loaded ref := by
  rw [consistent.checked]
  constructor
  · intro stored ref ⟨raw, found, holds⟩
    exact holds (stored raw (List.reduceOption_mem_iff.mpr (List.mem_of_getElem? found)))
  · intro none raw member
    by_contra holds
    obtain ⟨ref, found⟩ := List.mem_iff_getElem?.mp (List.reduceOption_mem_iff.mp member)
    exact none ref ⟨raw, found, holds⟩

/-- A safepoint returns for the list of the loaded references, each of them once. If it refuses
behind a first store, the counter shows that. -/
theorem Consistent.safepoint (build : Build) (consistent : roots.Consistent) (live : ∀ ref ∈ guarded, roots.Live ref) (moves : List (Nat → Nat)) :
    ∃ result behind, roots.safepoint build guarded moves = some (result, behind) ∧
      (result = .ok () → behind.Consistent) ∧
      (result = .ok () ↔ guarded.Nodup ∧ ∀ ref, roots.Loaded ref ↔ ref ∈ guarded) ∧
      (result ≠ .ok () → (behind = roots ↔ ∀ ref ∈ guarded.head?, ¬ roots.Loaded ref)) := by
  obtain ⟨result, middle, walked, stores⟩ := consistent.storeEach live
  cases result with
  | error panic =>
      refine ⟨.error panic, middle, by simp only [RootRefs.safepoint, walked], fun returned => (by cases returned), ?_,
        fun _ => stores.same⟩
      refine iff_of_false (fun returned => by cases returned) ?_
      intro ⟨distinct, loaded⟩
      cases stores.returns.mpr ⟨distinct, fun ref member => (loaded ref).mpr member⟩
  | ok =>
      obtain ⟨distinct, each⟩ := stores.returns.mp rfl
      have loaded := stores.loaded rfl
      cases check : middle.inner.checkStored "There stil active RootReference, store them before safepoint" with
      | error panic =>
          refine ⟨.error panic, middle, by simp only [RootRefs.safepoint, walked, check], fun returned => (by cases returned), ?_,
            fun _ => stores.same⟩
          refine iff_of_false (fun returned => by cases returned) ?_
          intro ⟨_, exactly⟩
          have passed : middle.inner.checkStored "There stil active RootReference, store them before safepoint" = .ok () := by
            rw [stores.consistent.checked_iff]
            intro ref held
            obtain ⟨before, fresh⟩ := (loaded ref).mp held
            exact fresh ((exactly ref).mp before)
          rw [check] at passed
          cases passed
      | ok =>
          have none := (stores.consistent.checked_iff _).mp check
          have stored : ∀ ref ∈ guarded, (middle.mapPointers moves).Live ref ∧ ¬ (middle.mapPointers moves).Loaded ref :=
            fun ref member => ⟨(stores.live ref).mpr (live ref member), none ref⟩
          obtain ⟨behind, returned, last⟩ := (stores.consistent.mapPointers moves).loadEach build distinct stored
          refine ⟨.ok (), behind, by simp only [RootRefs.safepoint, walked, check, returned], fun _ => last, ?_,
            fun refused => absurd rfl refused⟩
          refine iff_of_true rfl ⟨distinct, ?_⟩
          intro ref
          refine ⟨fun held => ?_, each ref⟩
          by_contra fresh
          exact none ref ((loaded ref).mpr ⟨held, fresh⟩)

theorem Consistent.addPtrOutcome (consistent : roots.Consistent) (ptr : Nat) :
    ∃ behind, roots.addPtrOutcome ptr = (.ok (), behind) ∧ behind.Consistent := by
  obtain ⟨next, taken, kept, _⟩ := consistent.addPtr ptr
  refine ⟨next, ?_, kept⟩
  cases returned : roots.inner.addPtr ptr with
  | mk result inner =>
      simp only [RootRefs.addPtr, returned] at taken
      simp only [RootRefs.addPtrOutcome, returned]
      cases result with
      | error panic => cases taken
      | ok added =>
          cases taken
          rfl

/-- One call in a sound state: it returns to a sound state, or it refuses. -/
theorem Consistent.perform {call : Call} (build : Build) (consistent : roots.Consistent)
    (callable : roots.Callable call) :
    ∃ result behind, roots.perform build call = some (result, behind) ∧ (result = .ok () → behind.Consistent) ∧
      ((result ≠ .ok () → behind = roots) ↔ roots.Harmless build call) := by
  cases call with
  | addPtr ptr =>
      obtain ⟨behind, returned, kept⟩ := consistent.addPtrOutcome ptr
      refine ⟨.ok (), behind, by rw [RootRefs.perform, returned], fun _ => kept, ?_⟩
      simp [Harmless]
  | store ref =>
      by_cases loaded : roots.Loaded ref
      · obtain ⟨next, performed, kept, _⟩ := consistent.onRef_loaded loaded
        exact ⟨.ok (), next, performed, fun _ => kept, by simp [Harmless]⟩
      · obtain ⟨raw, found⟩ := callable ref List.mem_cons_self
        have stored : raw.ptr = none := by
          by_contra holds
          exact loaded ⟨raw, found, holds⟩
        exact ⟨_, roots, onRef_stored found stored, fun _ => consistent, by simp [Harmless]⟩
  | load ref =>
      by_cases loaded : roots.Loaded ref
      · obtain ⟨panic, behind, performed, same⟩ := consistent.load_refused build loaded
        refine ⟨.error panic, behind, performed, fun returned => (by cases returned), ?_⟩
        rw [Harmless, ← same]
        simp [loaded]
      · obtain ⟨raw, found⟩ := callable ref List.mem_cons_self
        have stored : ∀ other ∈ [ref], roots.Live other ∧ ¬ roots.Loaded other := by
          rw [List.forall_mem_singleton]
          exact ⟨⟨raw, found⟩, loaded⟩
        obtain ⟨behind, walked, kept⟩ := consistent.loadEach build (List.nodup_singleton ref) stored
        have performed : roots.onRef (RootRefRaw.load build) ref = some (.ok (), behind) := by
          simp only [forEach] at walked
          split at walked
          · next returned => rw [returned, walked]
          · exact walked
        exact ⟨.ok (), behind, performed, fun _ => kept, by simp [Harmless, loaded]⟩
  | drop ref =>
      obtain ⟨raw, found⟩ := callable ref List.mem_cons_self
      obtain ⟨next, taken, kept, _⟩ := consistent.drop build found
      refine ⟨.ok (), next, ?_, fun _ => kept, by simp [Harmless]⟩
      cases returned : raw.drop build roots.inner with
      | mk result inner =>
          simp only [RootRefs.step, found, returned] at taken
          simp only [RootRefs.perform, found, returned]
          cases result with
          | error panic => cases taken
          | ok =>
              cases taken
              rfl
  | safepoint guarded moves =>
      have live : ∀ ref ∈ guarded, roots.Live ref := callable
      obtain ⟨result, behind, performed, kept, returns, same⟩ := consistent.safepoint build live moves
      refine ⟨result, behind, performed, kept, ?_⟩
      rw [Harmless, ← returns]
      by_cases returned : result = .ok ()
      · simp [returned]
      · simp [returned, same returned]
  | allocSlow moves result =>
      cases check : roots.inner.checkStored
        "There stil active RootReference, store them before calling alloc_slow (its implicitly also safepoint)" with
      | error panic =>
          refine ⟨.error panic, roots, ?_, fun returned => (by cases returned), by simp [Harmless]⟩
          simp only [RootRefs.perform, RootRefs.allocSlow, check]
      | ok =>
          cases result with
          | none =>
              refine ⟨.ok (), roots.mapPointers moves, ?_, fun _ => consistent.mapPointers moves, by simp [Harmless]⟩
              simp only [RootRefs.perform, RootRefs.allocSlow, check]
          | some ptr =>
              obtain ⟨behind, returned, kept⟩ := (consistent.mapPointers moves).addPtrOutcome ptr
              refine ⟨.ok (), behind, ?_, fun _ => kept, by simp [Harmless]⟩
              simp only [RootRefs.perform, RootRefs.allocSlow, check, returned]

theorem Consistent.refusesIntact_iff {call : Call} (consistent : roots.Consistent) :
    roots.RefusesIntact build call ↔ (roots.Callable call → roots.Harmless build call) := by
  refine imp_congr_right fun callable => ?_
  obtain ⟨result, behind, performed, _, harmless⟩ := consistent.perform build callable
  rw [← harmless, performed]
  constructor
  · intro intact refused
    cases result with
    | ok => exact absurd rfl refused
    | error panic => exact intact panic behind rfl
  · intro same panic other returned
    cases returned
    exact same (by simp)

/-- In every run, panics and all, each refused call leaves the roots as they were exactly when
each call meets the condition, in either build. -/
theorem refusals_intact_iff (build : Build) (calls : List Call) :
    Transition.EachStep (leaves build) new calls (RefusesIntact build) ↔
      Transition.EachStep (leaves build) new calls (fun roots call => roots.Callable call → roots.Harmless build call) := by
  refine Transition.EachStep.iff_of_invariant Consistent .new ?_ ?_
  · exact fun roots call consistent => consistent.refusesIntact_iff
  · intro roots call next consistent intact left
    unfold leaves at left
    split at left
    · rename_i callable
      obtain ⟨result, behind, performed, kept, _⟩ := consistent.perform build callable
      rw [performed] at left
      cases left
      cases result with
      | ok => exact kept rfl
      | error panic =>
          rw [intact callable panic behind performed]
          exact consistent
    · cases left

/-- A load of the first of two references, and a safepoint that names one of them. Behind the load
both can be stored, and the safepoint is still refused. In a release build a load of the only
reference leaves the counter at its largest value. -/
theorem refused_load_counts :
    (∃ roots behind panic last, Transition.run (leaves .debug) new [.addPtr 16, .addPtr 64, .store 1] = some roots ∧
      roots.perform .debug (.load 0) = some (.error panic, behind) ∧
      roots.inner.storedCount = 1 ∧ behind.inner.storedCount = 0 ∧
      Transition.run (leaves .debug) behind [.store 0] = some last ∧ (∀ ref < 2, last.Live ref ∧ ¬ last.Loaded ref) ∧
      ∃ refusal, last.perform .debug (.safepoint [] []) = some (.error refusal, last)) ∧
    (∃ roots behind panic, Transition.run (leaves .debug) new [.addPtr 16, .addPtr 64] = some roots ∧
      roots.perform .debug (.safepoint [0] []) = some (.error panic, behind) ∧
      roots.Loaded 0 ∧ ¬ behind.Loaded 0) ∧
    ∃ roots behind panic, Transition.run (leaves .release) new [.addPtr 16] = some roots ∧
      roots.perform .release (.load 0) = some (.error panic, behind) ∧
      roots.inner.storedCount = 0 ∧ behind.inner.storedCount = 2 ^ 64 - 1 := by
  refine ⟨⟨_, _, _, _, rfl, rfl, rfl, rfl, rfl, ?_, _, rfl⟩, ⟨_, _, _, rfl, rfl, ⟨_, rfl, by decide⟩, ?_⟩,
    _, _, _, rfl, rfl, rfl, rfl⟩
  · intro ref below
    have cases : ref = 0 ∨ ref = 1 := by omega
    rcases cases with rfl | rfl
    · refine ⟨⟨_, rfl⟩, ?_⟩
      rintro ⟨raw, found, holds⟩
      cases found
      exact holds rfl
    · refine ⟨⟨_, rfl⟩, ?_⟩
      rintro ⟨raw, found, holds⟩
      cases found
      exact holds rfl
  · rintro ⟨raw, found, holds⟩
    cases found
    exact holds rfl

end RootRefs

end UwUGC.Plus
