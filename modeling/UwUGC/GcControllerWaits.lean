import UwUGC.GcControllerProperties

/-! Who may be left asleep. `run_exclusive` waits for the end of a cycle on `condvar`,
which the end of a cycle does not notify; and `shutdown` notifies the looper, which
only looks at requests before it waits again. -/

set_option autoImplicit false

namespace UwUGC.GcController

variable {Thread : Type}

/-- While the mutex is free, who sleeps without having been notified has reason to. -/
def NoLostWakeup (controller : GcController Thread) : Prop :=
  controller.holder = none →
    (∀ thread curCount, controller.threads thread = .startWaiting curCount false →
      curCount = controller.finishedCount) ∧
    (∀ thread, controller.threads thread = .exclusiveWaiting false → controller.isRunning = true) ∧
    (controller.looper = .waiting false → controller.isRequested = false)

/-- A cycle ends only while nobody sleeps in `run_exclusive`, or to go on with the next one. -/
def EndsUnwaited (controller : GcController Thread) (action : Action Thread) : Prop :=
  action = .finishCycle → (∃ thread, controller.threads thread = .exclusiveWaiting false) →
    controller.isRequested = true ∧ controller.isShuttingDown = false

/-- Who sleeps in `run_exclusive` does so while a cycle runs. -/
def ExclusiveAsleep (controller : GcController Thread) : Prop :=
  ∀ thread, controller.threads thread = .exclusiveWaiting false → controller.isRunning = true

theorem ExclusiveAsleep.notifyCondvar {controller : GcController Thread} :
    ExclusiveAsleep controller.notifyCondvar := by
  intro sleeper waits
  cases phase : controller.threads sleeper <;>
    simp [GcController.notifyCondvar, CallPhase.notifyCondvar, phase] at waits

theorem ExclusiveAsleep.waitForRequest {controller : GcController Thread} (asleep : ExclusiveAsleep controller) :
    ExclusiveAsleep controller.waitForRequest := by
  rcases waitForRequest_cases controller with ⟨_, next⟩ | ⟨_, next⟩
  · rw [next]
    exact fun _ _ => rfl
  · rw [next]
    exact asleep

variable [DecidableEq Thread]

theorem ExclusiveAsleep.setThread {controller : GcController Thread} (asleep : ExclusiveAsleep controller)
    {thread : Thread} {phase : CallPhase} (other : phase ≠ .exclusiveWaiting false) :
    ExclusiveAsleep (controller.setThread thread phase) := by
  intro sleeper waits
  by_cases same : sleeper = thread
  · subst same
    simp only [GcController.setThread, Function.update_self] at waits
    exact absurd waits other
  · simp only [GcController.setThread, Function.update_of_ne same] at waits
    exact asleep sleeper waits

theorem ExclusiveAsleep.waitNotRunning {controller : GcController Thread} (asleep : ExclusiveAsleep controller)
    (thread : Thread) : ExclusiveAsleep (controller.waitNotRunning thread) := by
  rcases waitNotRunning_cases controller thread with ⟨running, next⟩ | ⟨_, next⟩
  · rw [next]
    exact fun _ _ => running
  · rw [next]
    exact asleep.setThread (by simp)

theorem notifyCycleDone_exclusiveWaiting {phase : CallPhase} {notified : Bool} :
    phase.notifyCycleDone = .exclusiveWaiting notified ↔ phase = .exclusiveWaiting notified := by
  cases phase <;> simp [CallPhase.notifyCycleDone]

theorem ExclusiveAsleep.step {controller next : GcController Thread} {action : Action Thread}
    (asleep : ExclusiveAsleep controller) (unwaited : EndsUnwaited controller action)
    (taken : controller.step action = some next) : ExclusiveAsleep next := by
  cases moves taken with
  | start => exact ExclusiveAsleep.notifyCondvar.setThread (by simp)
  | runExclusive => exact asleep.waitNotRunning _
  | leaveExclusive => exact asleep.setThread (by simp)
  | wakeStays => exact asleep.setThread (by simp)
  | wakeReturns => exact asleep.setThread (by simp)
  | wakeExclusive => exact asleep.waitNotRunning _
  | clearRequest => exact asleep
  | shutdown => exact asleep.setThread (by simp)
  | notifyShutdown => exact ExclusiveAsleep.notifyCondvar.setThread (by simp)
  | enter =>
      rcases loopHead_cases controller with ⟨_, next⟩ | ⟨_, next⟩
      · rw [next]
        exact asleep
      · rw [next]
        exact asleep.waitForRequest
  | wakeLooper => exact asleep.waitForRequest
  | snapshot => exact asleep
  | finishCycle _ running =>
      intro sleeper waits
      have slept : controller.threads sleeper = .exclusiveWaiting false := by
        rcases loopHead_cases { controller with
          finishedCount := controller.finishedCount + 1, isRunning := false }.notifyCycleDone with
          ⟨_, next⟩ | ⟨_, next⟩
        · rw [next] at waits
          exact notifyCycleDone_exclusiveWaiting.mp waits
        · rw [next] at waits
          refine notifyCycleDone_exclusiveWaiting.mp ?_
          rcases waitForRequest_cases { controller with
            finishedCount := controller.finishedCount + 1, isRunning := false }.notifyCycleDone with
            ⟨_, later⟩ | ⟨_, later⟩ <;> rw [later] at waits <;> exact waits
      obtain ⟨requested, going⟩ := unwaited rfl ⟨sleeper, slept⟩
      simp [loopHead, GcController.waitForRequest, notifyCycleDone, requested, going]

/-- No wake-up is lost in a run exactly when no cycle of it ends while somebody sleeps in
`run_exclusive`, unless the looper goes straight on with the next cycle. -/
theorem no_lost_wakeup_iff {actions : List (Action Thread)} {final : GcController Thread}
    (ran : Transition.run step new actions = some final) :
    Transition.Throughout step new actions NoLostWakeup ↔
      Transition.EachStep step new actions EndsUnwaited := by
  constructor
  · intro throughout
    refine throughout.eachStep ran Consistent .new (fun _ _ _ consistent taken => consistent.step taken) ?_
    intro state action next consistent _ taken holds finishing sleeping
    subst finishing
    obtain ⟨sleeper, waits⟩ := sleeping
    cases moves taken with
    | finishCycle free running =>
        cases shutting : state.isShuttingDown with
        | true =>
            have lost := (holds (by simp [loopHead, notifyCycleDone, shutting, free])).2.1 sleeper
              (by simp [loopHead, notifyCycleDone, shutting, waits, CallPhase.notifyCycleDone])
            simp [loopHead, notifyCycleDone, shutting] at lost
        | false =>
            cases requested : state.isRequested with
            | true => exact ⟨rfl, rfl⟩
            | false =>
                have lost := (holds (by
                  simp [loopHead, waitForRequest, notifyCycleDone, shutting, requested, free])).2.1 sleeper (by
                  simp [loopHead, waitForRequest, notifyCycleDone, shutting, requested, waits,
                    CallPhase.notifyCycleDone])
                simp [loopHead, waitForRequest, notifyCycleDone, shutting, requested] at lost
  · intro each
    have holds := each.throughout (fun state => Consistent state ∧ ExclusiveAsleep state)
      ⟨.new, fun _ waits => by cases waits⟩
      fun state action next both unwaited taken => ⟨both.1.step taken, both.2.step unwaited taken⟩
    intro past rest state split reached _
    obtain ⟨consistent, asleep⟩ := holds past rest state split reached
    exact ⟨consistent.waiting, asleep, consistent.asleep⟩

/-- A caller of `run_exclusive` that comes while a cycle runs is not woken by its end. -/
theorem exclusive_caller_left_asleep :
    ∃ final, Transition.run step (new : GcController Nat)
        [.enter, .start 0, .wakeLooper, .runExclusive 1, .snapshot, .finishCycle] = some final ∧
      ¬ NoLostWakeup final := by
  refine ⟨_, rfl, ?_⟩
  intro holds
  cases (holds rfl).2.1 1 rfl

/-- A cycle that nobody waits for but its requester. -/
theorem no_lost_wakeup_single :
    Transition.Throughout step (new : GcController Nat) [.enter, .start 0, .wakeLooper, .snapshot, .finishCycle]
        NoLostWakeup ↔
      Transition.EachStep step (new : GcController Nat) [.enter, .start 0, .wakeLooper, .snapshot, .finishCycle]
        EndsUnwaited :=
  no_lost_wakeup_iff rfl

/-- The looper is in its wait, notified or not, and would go on waiting. -/
def LooperStuck (controller : GcController Thread) : Prop :=
  (∃ notified, controller.looper = .waiting notified) ∧ controller.isRequested = false

def Action.byLooper : Action Thread → Bool
  | .enter | .wakeLooper | .snapshot | .finishCycle => true
  | _ => false

/-- Once the shutdown flag is set, a looper that no cycle and no mutex keeps is not stuck:
it can leave by steps of its own. -/
def LooperLeaves (controller : GcController Thread) : Prop :=
  controller.isShuttingDown = true → controller.holder = none → controller.isRunning = false →
    ¬ LooperStuck controller ∧
    ∃ own, (∀ action ∈ own, action.byLooper = true) ∧
      (Transition.run step controller own).map looper = some .left

/-- No shutdown finds the looper waiting without a request, and no request is cleared
behind a shutdown while the looper waits. -/
def LetsLeave (controller : GcController Thread) (action : Action Thread) : Prop :=
  (∀ thread, action = .shutdown thread → ¬ LooperStuck controller) ∧
  (∀ thread, action = .clearRequest thread → controller.isShuttingDown = true →
    ∀ notified, controller.looper ≠ .waiting notified)

/-- The part of it that a run carries. -/
def NotStuck (controller : GcController Thread) : Prop :=
  controller.isShuttingDown = true → ¬ LooperStuck controller

theorem NotStuck.leaves {controller : GcController Thread} (going : NotStuck controller)
    (consistent : Consistent controller) : LooperLeaves controller := by
  intro shutting free stopped
  refine ⟨going shutting, ?_⟩
  have outOfCycle (taken : Bool) : controller.looper ≠ .cycle taken := by
    intro running
    rw [consistent.running.mpr ⟨taken, running⟩] at stopped
    cases stopped
  cases looper : controller.looper with
  | entering =>
      refine ⟨[.enter], by simp [Action.byLooper], ?_⟩
      simp [Transition.run, step, free, looper, loopHead, shutting]
  | waiting notified =>
      have requested : controller.isRequested = true := by
        cases flag : controller.isRequested with
        | true => rfl
        | false => exact absurd ⟨⟨notified, looper⟩, flag⟩ (going shutting)
      have woken : notified = true := by
        cases notified with
        | true => rfl
        | false => exact absurd (consistent.asleep looper) (by simp [requested])
      subst woken
      refine ⟨[.wakeLooper, .snapshot, .finishCycle], by simp [Action.byLooper], ?_⟩
      simp [Transition.run, step, free, looper, waitForRequest, requested, notifyCycleDone, loopHead, shutting]
  | cycle taken => exact absurd looper (outOfCycle taken)
  | left => exact ⟨[], by simp, by simp [looper]⟩

theorem NotStuck.step {controller next : GcController Thread} {action : Action Thread}
    (going : NotStuck controller) (lets : LetsLeave controller action)
    (taken : controller.step action = some next) : NotStuck next := by
  cases moves taken with
  | start =>
      intro _ stuck
      cases stuck.2
  | @runExclusive thread =>
      rcases waitNotRunning_cases controller thread with ⟨_, next⟩ | ⟨_, next⟩ <;> rw [next] <;> exact going
  | leaveExclusive => exact going
  | wakeStays => exact going
  | wakeReturns => exact going
  | @wakeExclusive thread =>
      rcases waitNotRunning_cases controller thread with ⟨_, next⟩ | ⟨_, next⟩ <;> rw [next] <;> exact going
  | @clearRequest thread =>
      intro shutting stuck
      obtain ⟨⟨notified, waiting⟩, _⟩ := stuck
      exact lets.2 thread rfl shutting notified waiting
  | @shutdown thread => exact fun _ => lets.1 thread rfl
  | notifyShutdown =>
      intro shutting stuck
      obtain ⟨⟨notified, waiting⟩, quiet⟩ := stuck
      refine going shutting ⟨?_, quiet⟩
      cases looper : controller.looper <;>
        simp [notifyCondvar, setThread, LooperPhase.notifyCondvar, looper] at waiting ⊢
  | enter =>
      rcases loopHead_cases controller with ⟨_, next⟩ | ⟨open_, next⟩
      · rw [next]
        intro _ stuck
        obtain ⟨⟨_, waiting⟩, _⟩ := stuck
        cases waiting
      · rw [next]
        intro shutting
        rcases waitForRequest_cases controller with ⟨_, later⟩ | ⟨_, later⟩ <;> rw [later] at shutting <;>
          exact absurd shutting (by simp [open_])
  | wakeLooper _ waiting =>
      rcases waitForRequest_cases controller with ⟨_, next⟩ | ⟨quiet, next⟩
      · rw [next]
        intro _ stuck
        obtain ⟨⟨_, other⟩, _⟩ := stuck
        cases other
      · rw [next]
        intro shutting _
        exact going shutting ⟨⟨true, waiting⟩, quiet⟩
  | snapshot =>
      intro _ stuck
      obtain ⟨⟨_, waiting⟩, _⟩ := stuck
      cases waiting
  | finishCycle =>
      intro shutting stuck
      obtain ⟨⟨notified, waiting⟩, _⟩ := stuck
      cases flag : controller.isShuttingDown with
      | true => simp [loopHead, notifyCycleDone, flag] at waiting
      | false =>
          cases requested : controller.isRequested <;>
            simp [loopHead, waitForRequest, notifyCycleDone, flag, requested] at shutting

/-- The looper can always leave exactly when no shutdown finds it waiting without a request
and no request is taken back from it afterwards. -/
theorem looper_leaves_iff {actions : List (Action Thread)} {final : GcController Thread}
    (ran : Transition.run step new actions = some final) :
    Transition.Throughout step new actions LooperLeaves ↔ Transition.EachStep step new actions LetsLeave := by
  constructor
  · intro throughout
    refine throughout.eachStep ran Consistent .new (fun _ _ _ consistent taken => consistent.step taken) ?_
    intro state action next consistent _ taken holds
    have stopped (notified : Bool) (waiting : state.looper = .waiting notified) : state.isRunning = false := by
      simpa [waiting] using consistent.running
    constructor
    · intro thread shutdown stuck
      subst shutdown
      obtain ⟨⟨notified, waiting⟩, quiet⟩ := stuck
      cases moves taken with
      | shutdown free _ => exact (holds rfl free (stopped notified waiting)).1 ⟨⟨notified, waiting⟩, quiet⟩
    · intro thread cleared shutting notified waiting
      subst cleared
      cases moves taken with
      | clearRequest free => exact (holds shutting free (stopped notified waiting)).1 ⟨⟨notified, waiting⟩, rfl⟩
  · intro each
    have holds := each.throughout (fun state => Consistent state ∧ NotStuck state)
      ⟨.new, fun shutting => by cases shutting⟩
      fun state action next both lets taken => ⟨both.1.step taken, both.2.step lets taken⟩
    intro past rest state split reached
    obtain ⟨consistent, going⟩ := holds past rest state split reached
    exact going.leaves consistent

/-- A shutdown that comes while the looper sleeps wakes it for nothing. -/
theorem shutdown_leaves_looper_waiting :
    ∃ final, Transition.run step (new : GcController Nat)
        [.enter, .shutdown 0, .notifyShutdown 0, .wakeLooper] = some final ∧ ¬ LooperLeaves final := by
  refine ⟨_, rfl, ?_⟩
  intro leaves
  exact (leaves rfl rfl rfl).1 ⟨⟨false, rfl⟩, rfl⟩

/-- A shutdown during a cycle. -/
theorem looper_leaves_during_cycle :
    Transition.Throughout step (new : GcController Nat)
        [.start 0, .enter, .shutdown 1, .snapshot, .finishCycle] LooperLeaves ↔
      Transition.EachStep step (new : GcController Nat)
        [.start 0, .enter, .shutdown 1, .snapshot, .finishCycle] LetsLeave :=
  looper_leaves_iff rfl

end UwUGC.GcController
