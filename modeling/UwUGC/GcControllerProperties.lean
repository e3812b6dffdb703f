import UwUGC.GcController
import Mathlib.Tactic.Common

/-! What the callers of the controller and its looper can rely on, over every run. -/

set_option autoImplicit false

namespace UwUGC.GcController

variable {Thread : Type}

@[simp] theorem notifyCondvar_ne_exclusive {phase : CallPhase} :
    phase.notifyCondvar = .exclusive ↔ phase = .exclusive := by
  cases phase <;> simp [CallPhase.notifyCondvar]

@[simp] theorem notifyCycleDone_exclusive {phase : CallPhase} :
    phase.notifyCycleDone = .exclusive ↔ phase = .exclusive := by
  cases phase <;> simp [CallPhase.notifyCycleDone]

@[simp] theorem notifyCondvar_startWaiting {phase : CallPhase} {curCount : Nat} {notified : Bool} :
    phase.notifyCondvar = .startWaiting curCount notified ↔ phase = .startWaiting curCount notified := by
  cases phase <;> simp [CallPhase.notifyCondvar]

theorem notifyCycleDone_startWaiting {phase : CallPhase} {curCount : Nat} {notified : Bool}
    (waiting : phase.notifyCycleDone = .startWaiting curCount notified) :
    notified = true ∧ ∃ before, phase = .startWaiting curCount before := by
  cases phase <;> simp_all [CallPhase.notifyCycleDone]

@[simp] theorem notifyCondvar_cycle {phase : LooperPhase} {taken : Bool} :
    phase.notifyCondvar = .cycle taken ↔ phase = .cycle taken := by
  cases phase <;> simp [LooperPhase.notifyCondvar]

@[simp] theorem notifyCondvar_not_asleep {phase : LooperPhase} : phase.notifyCondvar ≠ .waiting false := by
  cases phase <;> simp [LooperPhase.notifyCondvar]

theorem loopHead_cases (controller : GcController Thread) :
    (controller.isShuttingDown = true ∧ controller.loopHead = { controller with looper := .left }) ∨
    (controller.isShuttingDown = false ∧ controller.loopHead = controller.waitForRequest) := by
  cases shutting : controller.isShuttingDown <;> simp [loopHead, shutting]

theorem waitForRequest_cases (controller : GcController Thread) :
    (controller.isRequested = true ∧ controller.waitForRequest =
      { controller with isRunning := true, isRequested := false, looper := .cycle false }) ∨
    (controller.isRequested = false ∧ controller.waitForRequest = { controller with looper := .waiting false }) := by
  cases requested : controller.isRequested <;> simp [waitForRequest, requested]

structure Consistent (controller : GcController Thread) : Prop where
  running : controller.isRunning = true ↔ ∃ taken, controller.looper = .cycle taken
  asleep : controller.looper = .waiting false → controller.isRequested = false
  waiting : ∀ thread curCount, controller.threads thread = .startWaiting curCount false →
    curCount = controller.finishedCount
  holder : ∀ thread, controller.threads thread = .exclusive ↔ controller.holder = some thread
  apart : controller.holder ≠ none → controller.isRunning = false

theorem Consistent.new : Consistent (new : GcController Thread) where
  running := by simp [GcController.new]
  asleep := by simp [GcController.new]
  waiting := by simp [GcController.new]
  holder := by simp [GcController.new]
  apart := by simp [GcController.new]

/-- The wait of the looper, entered while no cycle runs. -/
theorem Consistent.waitForRequest {controller : GcController Thread} (free : controller.holder = none)
    (stopped : controller.isRunning = false)
    (waiting : ∀ thread curCount, controller.threads thread = .startWaiting curCount false →
      curCount = controller.finishedCount)
    (holder : ∀ thread, controller.threads thread = .exclusive ↔ controller.holder = some thread) :
    Consistent controller.waitForRequest := by
  rcases waitForRequest_cases controller with ⟨_, next⟩ | ⟨quiet, next⟩
  · rw [next]
    exact ⟨by simp, by simp, waiting, holder, fun held => absurd free held⟩
  · rw [next]
    exact ⟨by simp [stopped], fun _ => quiet, waiting, holder, fun held => absurd free held⟩

theorem Consistent.loopHead {controller : GcController Thread} (free : controller.holder = none)
    (stopped : controller.isRunning = false)
    (waiting : ∀ thread curCount, controller.threads thread = .startWaiting curCount false →
      curCount = controller.finishedCount)
    (holder : ∀ thread, controller.threads thread = .exclusive ↔ controller.holder = some thread) :
    Consistent controller.loopHead := by
  rcases loopHead_cases controller with ⟨_, next⟩ | ⟨_, next⟩
  · rw [next]
    exact ⟨by simp [stopped], by simp, waiting, holder, fun held => absurd free held⟩
  · rw [next]
    exact .waitForRequest free stopped waiting holder

variable [DecidableEq Thread]

theorem waitNotRunning_cases (controller : GcController Thread) (thread : Thread) :
    (controller.isRunning = true ∧
      controller.waitNotRunning thread = controller.setThread thread (.exclusiveWaiting false)) ∨
    (controller.isRunning = false ∧ controller.waitNotRunning thread =
      { controller.setThread thread .exclusive with holder := some thread }) := by
  cases running : controller.isRunning <;> simp [waitNotRunning, running]

inductive Moves (controller : GcController Thread) : Action Thread → GcController Thread → Prop where
  | start {thread : Thread} (free : controller.holder = none) (outside : controller.threads thread = .outside) :
      Moves controller (.start thread) ({ controller with isRequested := true }.notifyCondvar.setThread thread
        (.startWaiting controller.finishedCount false))
  | runExclusive {thread : Thread} (free : controller.holder = none)
      (outside : controller.threads thread = .outside) :
      Moves controller (.runExclusive thread) (controller.waitNotRunning thread)
  | leaveExclusive {thread : Thread} (inside : controller.threads thread = .exclusive) :
      Moves controller (.leaveExclusive thread) { controller.setThread thread .outside with holder := none }
  | wakeStays {thread : Thread} {curCount : Nat} (free : controller.holder = none)
      (waiting : controller.threads thread = .startWaiting curCount true)
      (same : curCount = controller.finishedCount) :
      Moves controller (.wake thread) (controller.setThread thread (.startWaiting curCount false))
  | wakeReturns {thread : Thread} {curCount : Nat} (free : controller.holder = none)
      (waiting : controller.threads thread = .startWaiting curCount true)
      (differs : curCount ≠ controller.finishedCount) :
      Moves controller (.wake thread) (controller.setThread thread .outside)
  | wakeExclusive {thread : Thread} (free : controller.holder = none)
      (waiting : controller.threads thread = .exclusiveWaiting true) :
      Moves controller (.wake thread) (controller.waitNotRunning thread)
  | clearRequest {thread : Thread} (free : controller.holder = none) :
      Moves controller (.clearRequest thread) { controller with isRequested := false }
  | shutdown {thread : Thread} (free : controller.holder = none) (outside : controller.threads thread = .outside) :
      Moves controller (.shutdown thread) { controller.setThread thread .shuttingDown with isShuttingDown := true }
  | notifyShutdown {thread : Thread} (inside : controller.threads thread = .shuttingDown) :
      Moves controller (.notifyShutdown thread) (controller.notifyCondvar.setThread thread .outside)
  | enter (free : controller.holder = none) (entering : controller.looper = .entering) :
      Moves controller .enter controller.loopHead
  | wakeLooper (free : controller.holder = none) (waiting : controller.looper = .waiting true) :
      Moves controller .wakeLooper controller.waitForRequest
  | snapshot (free : controller.holder = none) (running : controller.looper = .cycle false) :
      Moves controller .snapshot { controller with isRequested := false, looper := .cycle true }
  | finishCycle {taken : Bool} (free : controller.holder = none) (running : controller.looper = .cycle taken) :
      Moves controller .finishCycle
        { controller with
          finishedCount := controller.finishedCount + 1, isRunning := false }.notifyCycleDone.loopHead

theorem moves {controller next : GcController Thread} {action : Action Thread}
    (taken : controller.step action = some next) : Moves controller action next := by
  cases action with
  | wake thread =>
      simp only [step, Option.ite_none_right_eq_some] at taken
      obtain ⟨free, checked⟩ := taken
      unfold recheck at checked
      split at checked
      · next curCount waiting =>
          split at checked
          · next same => exact Option.some.inj checked ▸ .wakeStays free waiting same
          · next differs => exact Option.some.inj checked ▸ .wakeReturns free waiting differs
      · next waiting => exact Option.some.inj checked ▸ .wakeExclusive free waiting
      · cases checked
  | finishCycle =>
      simp only [step] at taken
      split at taken
      · next running =>
          obtain ⟨free, result⟩ := Option.ite_none_right_eq_some.mp taken
          exact Option.some.inj result ▸ .finishCycle free running
      · cases taken
  | leaveExclusive thread =>
      obtain ⟨inside, result⟩ := Option.ite_none_right_eq_some.mp taken
      exact Option.some.inj result ▸ .leaveExclusive inside
  | notifyShutdown thread =>
      obtain ⟨inside, result⟩ := Option.ite_none_right_eq_some.mp taken
      exact Option.some.inj result ▸ .notifyShutdown inside
  | start thread =>
      obtain ⟨⟨free, outside⟩, result⟩ := Option.ite_none_right_eq_some.mp taken
      exact Option.some.inj result ▸ .start free outside
  | runExclusive thread =>
      obtain ⟨⟨free, outside⟩, result⟩ := Option.ite_none_right_eq_some.mp taken
      exact Option.some.inj result ▸ .runExclusive free outside
  | clearRequest thread =>
      obtain ⟨⟨free, outside⟩, result⟩ := Option.ite_none_right_eq_some.mp taken
      exact Option.some.inj result ▸ .clearRequest free
  | shutdown thread =>
      obtain ⟨⟨free, outside⟩, result⟩ := Option.ite_none_right_eq_some.mp taken
      exact Option.some.inj result ▸ .shutdown free outside
  | enter =>
      obtain ⟨⟨free, entering⟩, result⟩ := Option.ite_none_right_eq_some.mp taken
      exact Option.some.inj result ▸ .enter free entering
  | wakeLooper =>
      obtain ⟨⟨free, waiting⟩, result⟩ := Option.ite_none_right_eq_some.mp taken
      exact Option.some.inj result ▸ .wakeLooper free waiting
  | snapshot =>
      obtain ⟨⟨free, running⟩, result⟩ := Option.ite_none_right_eq_some.mp taken
      exact Option.some.inj result ▸ .snapshot free running

/-- Setting a thread that is outside to a phase other than the closure. -/
theorem holder_setThread {controller : GcController Thread} {thread : Thread} {phase : CallPhase}
    (holder : ∀ thread, controller.threads thread = .exclusive ↔ controller.holder = some thread)
    (before : controller.threads thread ≠ .exclusive) (behind : phase ≠ .exclusive) (other : Thread) :
    (controller.setThread thread phase).threads other = .exclusive ↔ controller.holder = some other := by
  by_cases same : other = thread
  · subst same
    simp only [setThread, Function.update_self, behind, false_iff]
    exact fun held => before ((holder other).mpr held)
  · simp only [setThread, Function.update_of_ne same]
    exact holder other

theorem waiting_setThread {controller : GcController Thread} {thread : Thread} {phase : CallPhase}
    (waiting : ∀ thread curCount, controller.threads thread = .startWaiting curCount false →
      curCount = controller.finishedCount)
    (behind : ∀ curCount, phase = .startWaiting curCount false → curCount = controller.finishedCount)
    (other : Thread) (curCount : Nat)
    (asleep : (controller.setThread thread phase).threads other = .startWaiting curCount false) :
    curCount = controller.finishedCount := by
  by_cases same : other = thread
  · subst same
    simp only [setThread, Function.update_self] at asleep
    exact behind curCount asleep
  · simp only [setThread, Function.update_of_ne same] at asleep
    exact waiting other curCount asleep

/-- `run_exclusive` gets the mutex: it waits, or its closure runs. -/
theorem Consistent.waitNotRunning {controller : GcController Thread} (consistent : Consistent controller)
    (free : controller.holder = none) (thread : Thread) : Consistent (controller.waitNotRunning thread) := by
  have outside (other : Thread) : controller.threads other ≠ .exclusive := by
    intro inside
    have held := (consistent.holder other).mp inside
    rw [free] at held
    cases held
  rcases waitNotRunning_cases controller thread with ⟨_, next⟩ | ⟨stopped, next⟩
  · rw [next]
    exact { consistent with
      waiting := waiting_setThread consistent.waiting (by simp)
      holder := holder_setThread consistent.holder (outside thread) (by simp) }
  · rw [next]
    refine { consistent with
      waiting := waiting_setThread consistent.waiting (by simp), holder := ?_, apart := fun _ => stopped }
    intro other
    by_cases same : other = thread
    · subst same
      simp [setThread]
    · simp only [setThread, Function.update_of_ne same, outside other, false_iff]
      exact fun held => same (Option.some.inj held).symm

theorem Consistent.step {controller next : GcController Thread} {action : Action Thread}
    (consistent : Consistent controller) (taken : controller.step action = some next) : Consistent next := by
  cases moves taken with
  | @start thread free outside =>
      have notified : ∀ other, controller.notifyCondvar.threads other = .exclusive ↔
          controller.notifyCondvar.holder = some other := by
        intro other
        simpa [notifyCondvar] using consistent.holder other
      constructor
      case running => simpa [notifyCondvar, setThread] using consistent.running
      case asleep => simp [notifyCondvar, setThread]
      case waiting =>
        refine waiting_setThread (fun other curCount asleep => ?_) ?_
        · exact consistent.waiting other curCount (notifyCondvar_startWaiting.mp asleep)
        · intro curCount same
          cases same
          rfl
      case holder => exact holder_setThread notified (by simp [notifyCondvar, outside]) (by simp)
      case apart => exact fun held => absurd free held
  | runExclusive free _ => exact consistent.waitNotRunning free _
  | @leaveExclusive thread inside =>
      have held := (consistent.holder thread).mp inside
      refine { consistent with
        waiting := waiting_setThread consistent.waiting (by simp), holder := ?_, apart := by simp }
      intro other
      by_cases same : other = thread
      · subst same
        simp [setThread]
      · simp only [setThread, Function.update_of_ne same, consistent.holder, held]
        simpa using Ne.symm same
  | wakeStays free waiting same =>
      refine { consistent with
        waiting := waiting_setThread consistent.waiting ?_
        holder := holder_setThread consistent.holder (by simp [waiting]) (by simp) }
      intro curCount phase
      cases phase
      exact same
  | wakeReturns free waiting _ =>
      exact { consistent with
        waiting := waiting_setThread consistent.waiting (by simp)
        holder := holder_setThread consistent.holder (by simp [waiting]) (by simp) }
  | wakeExclusive free _ => exact consistent.waitNotRunning free _
  | clearRequest free => exact { consistent with asleep := fun _ => rfl }
  | shutdown free outside =>
      exact { consistent with
        waiting := waiting_setThread consistent.waiting (by simp)
        holder := holder_setThread consistent.holder (by simp [outside]) (by simp) }
  | @notifyShutdown thread inside =>
      have notified : ∀ other, controller.notifyCondvar.threads other = .exclusive ↔
          controller.notifyCondvar.holder = some other := by
        intro other
        simpa [notifyCondvar] using consistent.holder other
      constructor
      case running => simpa [notifyCondvar, setThread] using consistent.running
      case asleep => simp [notifyCondvar, setThread]
      case waiting =>
        refine waiting_setThread (fun other curCount asleep => ?_) (by simp)
        exact consistent.waiting other curCount (notifyCondvar_startWaiting.mp asleep)
      case holder => exact holder_setThread notified (by simp [notifyCondvar, inside]) (by simp)
      case apart => exact consistent.apart
  | enter free entering =>
      have stopped : controller.isRunning = false := by
        simpa [entering] using consistent.running
      exact .loopHead free stopped consistent.waiting consistent.holder
  | wakeLooper free waiting =>
      have stopped : controller.isRunning = false := by
        simpa [waiting] using consistent.running
      exact .waitForRequest free stopped consistent.waiting consistent.holder
  | snapshot free running =>
      exact { consistent with
        running := by simpa [running] using consistent.running
        asleep := by simp }
  | finishCycle free running =>
      refine .loopHead free rfl ?_ ?_
      · intro thread curCount asleep
        obtain ⟨notified, _⟩ := notifyCycleDone_startWaiting asleep
        cases notified
      · intro thread
        simpa [notifyCycleDone] using consistent.holder thread

end UwUGC.GcController
