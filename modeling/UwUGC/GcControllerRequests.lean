import UwUGC.GcControllerProperties

/-! What becomes of requests when every cycle clears them once, at its snapshot. No
request is dropped; but a caller is answered by the next cycle that ends, and that one
may have taken its snapshot before the call. -/

set_option autoImplicit false

namespace UwUGC.GcController

variable {Thread : Type}

/-- Every request made so far is followed by a snapshot. -/
def Covered (actions : List (Action Thread)) : Prop :=
  ∀ past rest thread, actions = past ++ .start thread :: rest → .snapshot ∈ rest

theorem Covered.concat {actions : List (Action Thread)} {action : Action Thread} (covered : Covered actions)
    (other : ∀ thread, action ≠ .start thread) : Covered (actions ++ [action]) := by
  intro past rest thread split
  rcases List.eq_nil_or_concat rest with empty | ⟨before, last, rfl⟩
  · rw [empty] at split
    have last := (List.append_inj' split rfl).2
    exact absurd (List.cons.inj last).1 (other thread)
  · rw [List.concat_eq_append, ← List.cons_append, ← List.append_assoc] at split
    have front := (List.append_inj' split rfl).1
    rw [List.concat_eq_append]
    exact List.mem_append_left _ (covered past before thread front)

theorem Covered.snapshot (actions : List (Action Thread)) : Covered (actions ++ [.snapshot]) := by
  intro past rest thread split
  rcases List.eq_nil_or_concat rest with empty | ⟨before, last, rfl⟩
  · rw [empty] at split
    have last := (List.append_inj' split rfl).2
    cases last
  · rw [List.concat_eq_append, ← List.cons_append, ← List.append_assoc] at split
    have last := (List.append_inj' split rfl).2
    rw [List.concat_eq_append]
    exact List.mem_append_right _ (last ▸ List.mem_singleton_self _)

/-- Where a request that no snapshot has covered is still remembered. -/
def Pending (controller : GcController Thread) : Prop :=
  controller.isRequested = true ∨ controller.looper = .cycle false

theorem Pending.waitForRequest {controller : GcController Thread} (pending : controller.isRequested = true) :
    Pending controller.waitForRequest := by
  rcases waitForRequest_cases controller with ⟨_, next⟩ | ⟨quiet, _⟩
  · rw [next]
    exact .inr rfl
  · rw [pending] at quiet
    cases quiet

theorem Pending.loopHead {controller : GcController Thread} (pending : controller.isRequested = true) :
    Pending controller.loopHead := by
  rcases loopHead_cases controller with ⟨_, next⟩ | ⟨_, next⟩
  · rw [next]
    exact .inl pending
  · rw [next]
    exact .waitForRequest pending

/-- A snapshot and, behind it, the end of a cycle. -/
def Fresh (actions : List (Action Thread)) : Prop := [.snapshot, .finishCycle].Sublist actions

theorem Fresh.finishCycle {actions : List (Action Thread)} (taken : Action.snapshot ∈ actions) :
    Fresh (actions ++ [Action.finishCycle]) :=
  (List.singleton_sublist.mpr taken).append (List.Sublist.refl [Action.finishCycle])

theorem not_fresh_finishCycle : ¬ Fresh [(Action.finishCycle : Action Thread)] := by
  intro fresh
  exact absurd fresh.length_le (by simp)

/-- The thread waits for a cycle that is not yet counted. -/
structure WaitsBehind (thread : Thread) (curCount : Nat) (controller : GcController Thread) : Prop where
  counted : controller.finishedCount = curCount
  inside : ∃ notified, controller.threads thread = .startWaiting curCount notified

theorem WaitsBehind.other {controller : GcController Thread} {thread other : Thread} {curCount : Nat}
    (waits : WaitsBehind thread curCount controller)
    (phase : ∀ notified, controller.threads other ≠ .startWaiting curCount notified) : other ≠ thread := by
  intro same
  obtain ⟨_, notified, inside⟩ := waits
  exact phase notified (same ▸ inside)

theorem WaitsBehind.notifyCondvar {controller : GcController Thread} {thread : Thread} {curCount : Nat}
    (waits : WaitsBehind thread curCount controller) : WaitsBehind thread curCount controller.notifyCondvar := by
  obtain ⟨counted, notified, inside⟩ := waits
  exact ⟨counted, notified, notifyCondvar_startWaiting.mpr inside⟩

theorem waitForRequest_keeps (controller : GcController Thread) :
    controller.waitForRequest.finishedCount = controller.finishedCount ∧
    controller.waitForRequest.threads = controller.threads ∧
    controller.waitForRequest.holder = controller.holder ∧
    controller.waitForRequest.looper ≠ .cycle true := by
  rcases waitForRequest_cases controller with ⟨_, next⟩ | ⟨_, next⟩ <;> rw [next] <;> simp

theorem loopHead_keeps (controller : GcController Thread) :
    controller.loopHead.finishedCount = controller.finishedCount ∧
    controller.loopHead.threads = controller.threads ∧
    controller.loopHead.holder = controller.holder ∧
    controller.loopHead.looper ≠ .cycle true := by
  rcases loopHead_cases controller with ⟨_, next⟩ | ⟨_, next⟩
  · rw [next]
    simp
  · rw [next]
    exact waitForRequest_keeps controller

/-- What a call still needs: a fresh cycle has ended, or the thread waits and the cycle that
would answer it takes its snapshot behind the call. -/
def Answered (thread : Thread) (curCount : Nat) (actions : List (Action Thread))
    (controller : GcController Thread) : Prop :=
  Fresh actions ∨
    (WaitsBehind thread curCount controller ∧ (controller.looper = .cycle true → .snapshot ∈ actions))

variable [DecidableEq Thread]

theorem collectorStep_step {controller next : GcController Thread} {action : Action Thread}
    (taken : controller.collectorStep action = some next) : controller.step action = some next := by
  unfold collectorStep at taken
  split at taken
  · cases taken
  · split at taken
    · exact taken
    · cases taken
  · exact taken

theorem collectorStep_finishCycle {controller next : GcController Thread}
    (taken : controller.collectorStep .finishCycle = some next) : controller.looper = .cycle true :=
  (Option.ite_none_right_eq_some.mp taken).1

theorem Pending.step {controller next : GcController Thread} {action : Action Thread}
    (pending : Pending controller) (taken : controller.collectorStep action = some next)
    (other : action ≠ .snapshot) : Pending next := by
  have requested (looper : ∀ phase, controller.looper = .cycle phase → phase = true) :
      controller.isRequested = true := by
    rcases pending with flag | cycle
    · exact flag
    · cases looper false cycle
  cases moves (collectorStep_step taken) with
  | start => exact .inl rfl
  | @runExclusive thread =>
      rcases waitNotRunning_cases controller thread with ⟨_, next⟩ | ⟨_, next⟩ <;> rw [next] <;> exact pending
  | leaveExclusive => exact pending
  | wakeStays => exact pending
  | wakeReturns => exact pending
  | @wakeExclusive thread =>
      rcases waitNotRunning_cases controller thread with ⟨_, next⟩ | ⟨_, next⟩ <;> rw [next] <;> exact pending
  | clearRequest => cases taken
  | shutdown => exact pending
  | notifyShutdown =>
      rcases pending with flag | cycle
      · exact .inl flag
      · exact .inr (notifyCondvar_cycle.mpr cycle)
  | enter _ entering => exact .loopHead (requested (by simp [entering]))
  | wakeLooper _ waiting => exact .waitForRequest (requested (by simp [waiting]))
  | snapshot => exact absurd rfl other
  | finishCycle =>
      have behind := collectorStep_finishCycle taken
      exact .loopHead (requested (by simp [behind]))

/-- The closure of `run_exclusive` runs alone, and no request is dropped: it is remembered
until a snapshot covers it, and all are covered when the looper sleeps. -/
theorem exclusive_alone_requests_kept {actions : List (Action Thread)} {state : GcController Thread}
    (ran : Transition.run collectorStep new actions = some state) :
    (∀ thread, state.threads thread = .exclusive →
      (∀ taken, state.looper ≠ .cycle taken) ∧ ∀ other, state.threads other = .exclusive → other = thread) ∧
    (state.looper = .waiting false → Covered actions) ∧ (Covered actions ∨ Pending state) := by
  have invariant : Consistent state ∧ (Covered actions ∨ Pending state) := by
    refine Transition.run_induction (fun past there => Consistent there ∧ (Covered past ∨ Pending there)) ran
      ⟨.new, .inl (by simp [Covered])⟩ ?_
    intro past there action next _ both taken
    refine ⟨both.1.step (collectorStep_step taken), ?_⟩
    by_cases snapshot : action = .snapshot
    · subst snapshot
      exact .inl (.snapshot past)
    · rcases both.2 with covered | pending
      · by_cases start : ∃ thread, action = .start thread
        · obtain ⟨thread, rfl⟩ := start
          cases moves (collectorStep_step taken) with
          | start => exact .inr (.inl rfl)
        · exact .inl (covered.concat fun thread same => start ⟨thread, same⟩)
      · exact .inr (pending.step taken snapshot)
  obtain ⟨consistent, kept⟩ := invariant
  refine ⟨?_, ?_, kept⟩
  · intro thread inside
    have held := (consistent.holder thread).mp inside
    refine ⟨?_, ?_⟩
    · intro taken running
      have stopped := consistent.apart (by simp [held])
      rw [consistent.running.mpr ⟨taken, running⟩] at stopped
      cases stopped
    · intro other otherInside
      have otherHeld := (consistent.holder other).mp otherInside
      rw [held] at otherHeld
      exact (Option.some.inj otherHeld).symm
  · intro asleep
    rcases kept with covered | flag | cycle
    · exact covered
    · rw [consistent.asleep asleep] at flag
      cases flag
    · rw [asleep] at cycle
      cases cycle

/-- A request in the middle of a cycle, and an exclusive section behind the next one. -/
theorem exclusive_alone_requests_kept_busy :
    ∃ state, Transition.run collectorStep (new : GcController Nat)
        [.enter, .start 0, .wakeLooper, .snapshot, .start 1, .finishCycle, .snapshot, .finishCycle, .runExclusive 2] =
        some state ∧
      state.threads 2 = .exclusive ∧ ∀ taken, state.looper ≠ .cycle taken := by
  have goes : ((Transition.run collectorStep (new : GcController Nat)
      [.enter, .start 0, .wakeLooper, .snapshot, .start 1, .finishCycle, .snapshot, .finishCycle,
        .runExclusive 2]).map fun state => state.threads 2) = some .exclusive := rfl
  obtain ⟨state, ran, inside⟩ := Option.map_eq_some_iff.mp goes
  exact ⟨state, ran, inside, ((exclusive_alone_requests_kept ran).1 2 inside).1⟩

@[simp] theorem setThread_self (controller : GcController Thread) (thread : Thread) (phase : CallPhase) :
    (controller.setThread thread phase).threads thread = phase :=
  Function.update_self ..

theorem setThread_other {controller : GcController Thread} {thread other : Thread} {phase : CallPhase}
    (differs : other ≠ thread) : (controller.setThread thread phase).threads other = controller.threads other :=
  Function.update_of_ne differs ..

theorem WaitsBehind.setThread {controller : GcController Thread} {thread other : Thread} {curCount : Nat}
    {phase : CallPhase} (waits : WaitsBehind thread curCount controller) (differs : other ≠ thread) :
    WaitsBehind thread curCount (controller.setThread other phase) := by
  obtain ⟨counted, notified, inside⟩ := waits
  refine ⟨counted, notified, ?_⟩
  rw [setThread_other differs.symm]
  exact inside

theorem WaitsBehind.waitNotRunning {controller : GcController Thread} {thread other : Thread} {curCount : Nat}
    (waits : WaitsBehind thread curCount controller) (differs : other ≠ thread) :
    WaitsBehind thread curCount (controller.waitNotRunning other) := by
  rcases waitNotRunning_cases controller other with ⟨_, next⟩ | ⟨_, next⟩
  · rw [next]
    exact waits.setThread differs
  · rw [next]
    obtain ⟨counted, inside⟩ := waits.setThread differs
    exact ⟨counted, inside⟩

theorem waitNotRunning_looper (controller : GcController Thread) (thread : Thread) :
    (controller.waitNotRunning thread).looper = controller.looper := by
  rcases waitNotRunning_cases controller thread with ⟨_, next⟩ | ⟨_, next⟩ <;> rw [next] <;> rfl

theorem Answered.step {controller next : GcController Thread} {thread : Thread} {curCount : Nat}
    {actions : List (Action Thread)} {action : Action Thread}
    (answered : Answered thread curCount actions controller)
    (taken : controller.collectorStep action = some next) :
    Answered thread curCount (actions ++ [action]) next := by
  rcases answered with fresh | ⟨waits, behind⟩
  · exact .inl (fresh.trans (List.sublist_append_left actions [action]))
  · have seen (running : controller.looper = .cycle true) : .snapshot ∈ actions ++ [action] :=
      List.mem_append_left _ (behind running)
    cases moves (collectorStep_step taken) with
    | start _ outside =>
        refine .inr ⟨?_, fun running => seen (notifyCondvar_cycle.mp running)⟩
        have kept : WaitsBehind thread curCount { controller with isRequested := true } :=
          ⟨waits.counted, waits.inside⟩
        exact kept.notifyCondvar.setThread (waits.other (by simp [outside]))
    | runExclusive _ outside =>
        rw [Answered, waitNotRunning_looper]
        exact .inr ⟨waits.waitNotRunning (waits.other (by simp [outside])), seen⟩
    | @leaveExclusive other inside =>
        have kept : WaitsBehind thread curCount (controller.setThread other .outside) :=
          waits.setThread (waits.other (by simp [inside]))
        exact .inr ⟨⟨kept.counted, kept.inside⟩, seen⟩
    | @wakeStays other count _ waiting same =>
        refine .inr ⟨?_, seen⟩
        by_cases self : other = thread
        · refine ⟨waits.counted, false, ?_⟩
          rw [same, waits.counted, self, setThread_self]
        · exact waits.setThread self
    | @wakeReturns other count _ waiting differs =>
        refine .inr ⟨?_, seen⟩
        apply waits.setThread
        apply waits.other
        intro notified inside
        rw [waiting] at inside
        cases inside
        exact differs waits.counted.symm
    | wakeExclusive _ waiting =>
        rw [Answered, waitNotRunning_looper]
        exact .inr ⟨waits.waitNotRunning (waits.other (by simp [waiting])), seen⟩
    | clearRequest => cases taken
    | @shutdown other _ outside =>
        have kept : WaitsBehind thread curCount (controller.setThread other .shuttingDown) :=
          waits.setThread (waits.other (by simp [outside]))
        exact .inr ⟨⟨kept.counted, kept.inside⟩, seen⟩
    | notifyShutdown inside =>
        refine .inr ⟨?_, fun running => seen (notifyCondvar_cycle.mp running)⟩
        exact waits.notifyCondvar.setThread (waits.other (by simp [inside]))
    | enter =>
        obtain ⟨counted, threads, _, looper⟩ := loopHead_keeps controller
        refine .inr ⟨⟨?_, ?_⟩, fun running => absurd running looper⟩
        · rw [counted]
          exact waits.counted
        · rw [threads]
          exact waits.inside
    | wakeLooper =>
        obtain ⟨counted, threads, _, looper⟩ := waitForRequest_keeps controller
        refine .inr ⟨⟨?_, ?_⟩, fun running => absurd running looper⟩
        · rw [counted]
          exact waits.counted
        · rw [threads]
          exact waits.inside
    | snapshot => exact .inr ⟨⟨waits.counted, waits.inside⟩, fun _ => by simp⟩
    | finishCycle => exact .inl (.finishCycle (behind (collectorStep_finishCycle taken)))

/-- A return from the wait of `start_and_wait_cycle`. -/
theorem WaitsBehind.stays {controller next : GcController Thread} {thread : Thread} {curCount : Nat}
    (waits : WaitsBehind thread curCount controller) (taken : controller.collectorStep (.wake thread) = some next) :
    next.threads thread ≠ .outside := by
  obtain ⟨counted, notified, inside⟩ := waits
  cases moves (collectorStep_step taken) with
  | wakeStays => simp
  | wakeReturns _ waiting differs =>
      rw [inside] at waiting
      cases waiting
      exact absurd counted.symm differs
  | wakeExclusive _ waiting =>
      rw [inside] at waiting
      cases waiting

theorem finishCycle_answers (controller : GcController Thread) {thread : Thread} {notified : Bool}
    (free : controller.holder = none) (running : controller.looper = .cycle true)
    (waiting : controller.threads thread = .startWaiting controller.finishedCount notified) :
    ∃ last returned, controller.collectorStep .finishCycle = some last ∧
      last.collectorStep (.wake thread) = some returned ∧ returned.threads thread = .outside := by
  let ended : GcController Thread :=
    { controller with finishedCount := controller.finishedCount + 1, isRunning := false }.notifyCycleDone
  obtain ⟨counted, threads, holder, _⟩ := loopHead_keeps ended
  have woken : ended.loopHead.threads thread = .startWaiting controller.finishedCount true := by
    rw [threads]
    simp [ended, notifyCycleDone, waiting, CallPhase.notifyCycleDone]
  have differs : controller.finishedCount ≠ ended.loopHead.finishedCount := by
    rw [counted]
    exact Nat.ne_of_lt (Nat.lt_succ_self _)
  refine ⟨ended.loopHead, ended.loopHead.setThread thread .outside, ?_, ?_, setThread_self ..⟩
  · simp [collectorStep, step, running, free, ended]
  · have released : ended.loopHead.holder = none := holder.trans free
    simp [collectorStep, step, released, recheck, woken, differs]

theorem start_waits {state begun : GcController Thread} {thread : Thread}
    (called : state.collectorStep (.start thread) = some begun) :
    begun.holder = none ∧ begun.looper = state.looper.notifyCondvar ∧
    begun.threads thread = .startWaiting begun.finishedCount false := by
  cases moves (collectorStep_step called) with
  | start free _ => exact ⟨free, rfl, setThread_self ..⟩

/-- Whatever comes behind it, a call returns only after a fresh cycle, unless it was made
between the snapshot of a running cycle and its end. -/
theorem requested_cycle_fresh_iff {state begun : GcController Thread} {thread : Thread}
    (called : state.collectorStep (.start thread) = some begun) :
    (∀ later last returned, Transition.run collectorStep begun later = some last →
      last.collectorStep (.wake thread) = some returned → returned.threads thread = .outside → Fresh later) ↔
    state.looper ≠ .cycle true := by
  obtain ⟨free, looper, waiting⟩ := start_waits called
  constructor
  · intro fresh running
    have cycling : begun.looper = .cycle true := by
      rw [looper]
      exact notifyCondvar_cycle.mpr running
    obtain ⟨last, returned, ended, woken, left⟩ := finishCycle_answers begun free cycling waiting
    have ran : Transition.run collectorStep begun [.finishCycle] = some last :=
      Transition.run_cons_eq_some.mpr ⟨last, ended, rfl⟩
    exact not_fresh_finishCycle (fresh [.finishCycle] last returned ran woken left)
  · intro early later last returned ran woken left
    have answered : Answered thread begun.finishedCount later last := by
      refine Transition.run_induction (Answered thread begun.finishedCount) ran
        (.inr ⟨⟨rfl, false, waiting⟩, ?_⟩) fun past there action next _ holds taken => holds.step taken
      intro running
      rw [looper] at running
      exact absurd (notifyCondvar_cycle.mp running) early
    rcases answered with fresh | ⟨waits, _⟩
    · exact fresh
    · exact absurd left (waits.stays woken)

/-- Thread 1 calls between the snapshot of a cycle and its end, and returns behind that cycle. -/
theorem stale_cycle_answers_request :
    ∃ state begun last returned,
      Transition.run collectorStep (new : GcController Nat) [.enter, .start 0, .wakeLooper, .snapshot] = some state ∧
      state.collectorStep (.start 1) = some begun ∧
      Transition.run collectorStep begun [.finishCycle] = some last ∧
      last.collectorStep (.wake 1) = some returned ∧ returned.threads 1 = .outside ∧
      ¬ Fresh [(Action.finishCycle : Action Nat)] :=
  ⟨_, _, _, _, rfl, rfl, rfl, rfl, rfl, not_fresh_finishCycle⟩

/-- Thread 1 calls before the snapshot. -/
theorem requested_cycle_fresh_early :
    ∃ state begun,
      Transition.run collectorStep (new : GcController Nat) [.enter, .start 0, .wakeLooper] = some state ∧
      state.collectorStep (.start 1) = some begun ∧
      ((∀ later last returned, Transition.run collectorStep begun later = some last →
        last.collectorStep (.wake 1) = some returned → returned.threads 1 = .outside → Fresh later) ↔
      state.looper ≠ .cycle true) := by
  have goes : ((Transition.run collectorStep (new : GcController Nat) [.enter, .start 0, .wakeLooper]).bind
      fun state => (state.collectorStep (.start 1)).map fun _ => ()) = some () := rfl
  obtain ⟨state, ran, called⟩ := Option.bind_eq_some_iff.mp goes
  obtain ⟨begun, called, _⟩ := Option.map_eq_some_iff.mp called
  exact ⟨state, begun, ran, called, requested_cycle_fresh_iff called⟩

end UwUGC.GcController
