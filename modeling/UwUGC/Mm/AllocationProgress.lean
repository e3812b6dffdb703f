import UwUGC.Mm.ConcurrentAllocation

/-! Threads that allocate at once get on: no step of theirs panics, none of them retries, and they never
wait for each other in a circle. -/

set_option autoImplicit false

namespace UwUGC.Mm

variable {threads next final : Threads} {actions : List Threads.Action} {id size idx baseAddr nrPages : Nat}

/-- The steps that a call has before it, at most. -/
def Stage.left : Stage → Nat
  | .idle => 0
  | .entered _ => 7
  | .refill _ false => 6
  | .install _ _ false => 5
  | .look _ _ => 4
  | .refill _ true => 3
  | .install _ _ true => 2
  | .serve _ _ => 1

theorem left_fromBuffer_lt (size : Nat) (buffer : Option Nat) : (Threads.fromBuffer size buffer).left < 7 := by
  cases buffer <;> simp [Threads.fromBuffer, Stage.left]

/-- The step of a thread takes it somewhere else, and no other thread. -/
structure Threads.WentTo (threads next : Threads) (id : Nat) (stage : Stage) : Prop where
  own : next.stage id = stage
  others : ∀ other, other ≠ id → next.stage other = threads.stage other

theorem Threads.wentTo_goTo {middle : Threads} (same : middle.stage = threads.stage) (stage : Stage) :
    threads.WentTo (middle.goTo id stage) id stage := by
  refine ⟨goTo_stage .., fun other different => ?_⟩
  rw [← same]
  exact Function.update_of_ne different _ _

theorem Threads.wentTo_leave {middle : Threads} (same : middle.stage = threads.stage) (result : Option (Nat × Nat)) :
    threads.WentTo (middle.leave id size result) id .idle := by
  refine ⟨Function.update_self .., fun other different => ?_⟩
  rw [← same]
  exact Function.update_of_ne different _ _

theorem Threads.serveIn_wentTo (served : threads.serveIn id size idx = .ok next) : threads.WentTo next id .idle := by
  unfold Threads.serveIn at served
  by_cases medium : sizeClass size = .medium
  · simp only [if_pos medium, bind_eq_ok, Prod.exists, Except.ok.injEq] at served
    obtain ⟨_, _, _, _, _, _, _, rfl⟩ := served
    exact wentTo_leave (by rfl) _
  · simp only [if_neg medium, bind_eq_ok, Prod.exists, Except.ok.injEq] at served
    obtain ⟨_, _, _, rfl⟩ := served
    exact wentTo_leave (by rfl) _

/-- Every step of a call brings it nearer to its return. -/
theorem Threads.go_left (gone : threads.go id = .ok (some next)) :
    (next.stage id).left < (threads.stage id).left ∧ ∀ other, other ≠ id → next.stage other = threads.stage other := by
  obtain ⟨target, went, less⟩ : ∃ target, threads.WentTo next id target ∧ target.left < (threads.stage id).left := by
    unfold Threads.go at gone
    cases stage : threads.stage id with
    | idle => simp [stage] at gone
    | entered size =>
        simp only [stage, Except.ok.injEq, Threads.enter] at gone
        cases sized : sizeClass size with
        | small =>
            simp only [sized, Option.some.injEq] at gone
            subst gone
            exact ⟨_, wentTo_goTo (by rfl) _, left_fromBuffer_lt _ _⟩
        | medium =>
            cases locks : threads.bufferLock with
            | some other => simp [sized, locks] at gone
            | none =>
                simp only [sized, locks, Option.some.injEq] at gone
                subst gone
                exact ⟨_, wentTo_goTo (by rfl) _, left_fromBuffer_lt _ _⟩
        | huge count =>
            simp only [sized, Option.some.injEq] at gone
            subst gone
            exact ⟨_, wentTo_goTo (by rfl) _, by simp [Stage.left]⟩
    | look size idx =>
        simp only [stage, Threads.lookIn, bind_eq_ok, Except.ok.injEq, Option.some.injEq] at gone
        obtain ⟨_, ⟨free, _, looked⟩, rfl⟩ := gone
        by_cases room : roomFor size free = true
        · rw [if_pos room] at looked
          exact ⟨_, serveIn_wentTo looked, by simp [Stage.left]⟩
        · rw [if_neg room] at looked
          cases looked
          exact ⟨_, wentTo_goTo (by rfl) _, by simp [Stage.left]⟩
    | refill size tested =>
        simp only [stage, Except.ok.injEq, Option.some.injEq, Threads.claim] at gone
        subst gone
        cases threads.shared.table.claimPages (sizeClass size) with
        | none => exact ⟨_, wentTo_leave (by rfl) _, by cases tested <;> simp [Stage.left]⟩
        | some claimed =>
            refine ⟨.install size claimed.1 tested, wentTo_goTo (by rfl) _, ?_⟩
            cases tested <;> simp [Stage.left]
    | install size idx tested =>
        simp only [stage, Threads.install, bind_eq_ok, Except.ok.injEq, Option.some.injEq] at gone
        obtain ⟨_, ⟨table, _, rfl⟩, rfl⟩ := gone
        refine ⟨if tested then .serve size idx else .look size idx, wentTo_goTo ?_ _, ?_⟩
        · exact keep_stage
        · cases tested <;> simp [Stage.left]
    | serve size idx =>
        simp only [stage, bind_eq_ok, Except.ok.injEq, Option.some.injEq] at gone
        obtain ⟨_, served, rfl⟩ := gone
        exact ⟨_, serveIn_wentTo served, by simp [Stage.left]⟩
  rw [went.own]
  exact ⟨less, went.others⟩

/-- The steps that a thread has taken in a run, and the calls that it has made. -/
def Threads.stepsOf (id : Nat) (actions : List Threads.Action) : Nat := actions.countP (· == .go id)

def Threads.callsOf (id : Nat) (actions : List Threads.Action) : Nat :=
  actions.countP fun action =>
    match action with
    | .call other _ => other == id
    | .go _ => false

theorem Threads.steps_bounded (id : Nat)
    (ran : Transition.run Threads.step (Threads.new baseAddr nrPages) actions = some final) :
    Threads.stepsOf id actions + (final.stage id).left ≤ 7 * Threads.callsOf id actions := by
  refine Transition.run_induction (fun actions threads =>
    Threads.stepsOf id actions + (threads.stage id).left ≤ 7 * Threads.callsOf id actions) ran (Nat.le_refl _) ?_
  intro past threads action next _ bounded taken
  rw [Threads.step_eq_some] at taken
  cases action with
  | call other size =>
      obtain ⟨stage, _, rfl⟩ := Threads.call_eq_ok.mp taken
      have calls : Threads.callsOf id (past ++ [.call other size]) =
          Threads.callsOf id past + if other = id then 1 else 0 := by
        by_cases mine : other = id <;> simp [Threads.callsOf, mine]
      have steps : Threads.stepsOf id (past ++ [.call other size]) = Threads.stepsOf id past := by
        simp [Threads.stepsOf]
      rw [steps, calls]
      by_cases mine : id = other
      · subst mine
        rw [stage] at bounded
        simp only [goTo_stage, Stage.left, if_true] at bounded ⊢
        omega
      · have same : (threads.goTo other (.entered size)).stage id = threads.stage id :=
          Function.update_of_ne mine _ _
        simp only [same]
        omega
  | go other =>
      obtain ⟨less, others⟩ := Threads.go_left taken
      have calls : Threads.callsOf id (past ++ [.go other]) = Threads.callsOf id past := by
        simp [Threads.callsOf]
      have steps : Threads.stepsOf id (past ++ [.go other]) =
          Threads.stepsOf id past + if other = id then 1 else 0 := by
        by_cases mine : other = id <;> simp [Threads.stepsOf, mine]
      rw [steps, calls]
      by_cases mine : id = other
      · subst mine
        rw [if_pos rfl]
        omega
      · rw [others id mine, if_neg (Ne.symm mine)]
        exact bounded

/-- Threads that allocate at once never panic on a page that is not there or is too full, none of them
retries, and as long as a call is under way one of them can go on. -/
theorem allocations_go_on (nonnull : baseAddr ≠ 0)
    (ran : Transition.run Threads.step (Threads.new baseAddr nrPages) actions = some final) :
    (∀ id, ∃ outcome, final.go id = .ok outcome) ∧
      (∀ id, final.stage id ≠ .idle → ∃ other next, final.go other = .ok (some next)) ∧
      ∀ id, Threads.stepsOf id actions ≤ 7 * Threads.callsOf id actions := by
  obtain ⟨calls, refines, _⟩ := Refines.along nonnull ran
  have inside {id size : Nat} (within : (final.stage id).inside = some size) :
      ∃ next, final.go id = .ok (some next) := by
    obtain ⟨outcome, gone, _⟩ := refines.goes id
    cases outcome with
    | some next => exact ⟨next, gone⟩
    | none =>
        unfold Threads.go at gone
        cases stage : final.stage id with
        | idle => simp [stage, Stage.inside] at within
        | entered size => simp [stage, Stage.inside] at within
        | look size idx => simp [stage, bind_eq_ok] at gone
        | refill size tested => simp [stage] at gone
        | install size idx tested => simp [stage, bind_eq_ok] at gone
        | serve size idx => simp [stage, bind_eq_ok] at gone
  refine ⟨fun id => ?_, ?_, fun id => ?_⟩
  · obtain ⟨outcome, gone, _⟩ := refines.goes id
    exact ⟨outcome, gone⟩
  · intro id busy
    cases stage : final.stage id with
    | idle => exact absurd stage busy
    | entered size =>
        cases sized : sizeClass size with
        | small => exact ⟨id, _, by simp only [Threads.go, stage, Threads.enter, sized]; rfl⟩
        | huge count => exact ⟨id, _, by simp only [Threads.go, stage, Threads.enter, sized]; rfl⟩
        | medium =>
            cases locks : final.bufferLock with
            | none => exact ⟨id, _, by simp only [Threads.go, stage, Threads.enter, sized, locks]; rfl⟩
            | some other =>
                obtain ⟨size', within, _⟩ := (refines.locked other).mp locks
                exact ⟨other, inside within⟩
    | look size idx => exact ⟨id, inside (by rw [stage, Stage.inside])⟩
    | refill size tested => exact ⟨id, inside (by rw [stage, Stage.inside])⟩
    | install size idx tested => exact ⟨id, inside (by rw [stage, Stage.inside])⟩
    | serve size idx => exact ⟨id, inside (by rw [stage, Stage.inside])⟩
  · have bounded := Threads.steps_bounded id ran
    omega

theorem allocations_go_on_overlapping : ∃ final,
    Transition.run Threads.step (Threads.new 4096 9) overlapping = some final ∧
      (∀ id, ∃ outcome, final.go id = .ok outcome) ∧
        (∀ id, final.stage id ≠ .idle → ∃ other next, final.go other = .ok (some next)) ∧
        ∀ id, Threads.stepsOf id overlapping ≤ 7 * Threads.callsOf id overlapping := by
  obtain ⟨final, ran⟩ : ∃ final, Transition.run Threads.step (Threads.new 4096 9) overlapping = some final := by
    apply Option.isSome_iff_exists.mp
    decide +kernel
  exact ⟨final, ran, allocations_go_on (by decide) ran⟩

end UwUGC.Mm
