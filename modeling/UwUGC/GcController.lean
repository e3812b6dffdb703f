import UwUGC.Lib.Transition
import Mathlib.Logic.Function.Basic

/-! The controller that starts cycles. A step is one critical section of the state
mutex: from taking it to dropping it or to a wait that releases it. Only the closure
of `run_exclusive` keeps the mutex from one step to the next. The condition variables
have no spurious wake-ups. -/

set_option autoImplicit false

namespace UwUGC

/-- Where a caller stands. `notified` tells that it was woken but has not yet got
the mutex back to check its predicate again. -/
inductive CallPhase where
  | outside
  /-- `start_and_wait_cycle` in its wait on `cycle_done_condvar`. -/
  | startWaiting (curCount : Nat) (notified : Bool)
  /-- `run_exclusive` in its wait on `condvar`. -/
  | exclusiveWaiting (notified : Bool)
  /-- The closure of `run_exclusive`. -/
  | exclusive
  /-- `shutdown` between the two statements. -/
  | shuttingDown
deriving DecidableEq, Repr

/-- Where the thread in `do_looper` stands. -/
inductive LooperPhase where
  | entering
  /-- In its wait on `condvar`. -/
  | waiting (notified : Bool)
  /-- In `on_cycle`, before or after the snapshot that clears the request. -/
  | cycle (snapshotTaken : Bool)
  | left
deriving DecidableEq, Repr

/-- A caller that waits on `condvar` is woken. -/
def CallPhase.notifyCondvar : CallPhase → CallPhase
  | .exclusiveWaiting _ => .exclusiveWaiting true
  | phase => phase

def CallPhase.notifyCycleDone : CallPhase → CallPhase
  | .startWaiting curCount _ => .startWaiting curCount true
  | phase => phase

def LooperPhase.notifyCondvar : LooperPhase → LooperPhase
  | .waiting _ => .waiting true
  | phase => phase

structure GcController (Thread : Type) where
  isRunning : Bool
  isRequested : Bool
  isShuttingDown : Bool
  finishedCount : Nat
  /-- The thread that has the state mutex between two steps. -/
  holder : Option Thread
  threads : Thread → CallPhase
  looper : LooperPhase

namespace GcController

inductive Action (Thread : Type) where
  /-- `start_and_wait_cycle` up to its wait. -/
  | start (thread : Thread)
  | runExclusive (thread : Thread)
  /-- The closure returns. -/
  | leaveExclusive (thread : Thread)
  /-- A notified caller checks its predicate again. -/
  | wake (thread : Thread)
  | clearRequest (thread : Thread)
  | shutdown (thread : Thread)
  | notifyShutdown (thread : Thread)
  /-- The looper thread comes to `do_looper`. -/
  | enter
  | wakeLooper
  /-- The running cycle takes its snapshot and calls `clear_request`. -/
  | snapshot
  /-- `on_cycle` returns. -/
  | finishCycle
deriving DecidableEq, Repr

variable {Thread : Type}

def new : GcController Thread where
  isRunning := false
  isRequested := false
  isShuttingDown := false
  finishedCount := 0
  holder := none
  threads := fun _ => .outside
  looper := .entering

/-- `condvar.notify_all()`. -/
def notifyCondvar (controller : GcController Thread) : GcController Thread :=
  { controller with
    threads := fun thread => (controller.threads thread).notifyCondvar
    looper := controller.looper.notifyCondvar }

def notifyCycleDone (controller : GcController Thread) : GcController Thread :=
  { controller with threads := fun thread => (controller.threads thread).notifyCycleDone }

/-- The wait of the looper and what follows it: the flags of a new cycle. -/
def waitForRequest (controller : GcController Thread) : GcController Thread :=
  if controller.isRequested then
    { controller with isRunning := true, isRequested := false, looper := .cycle false }
  else { controller with looper := .waiting false }

def loopHead (controller : GcController Thread) : GcController Thread :=
  if controller.isShuttingDown then { controller with looper := .left } else controller.waitForRequest

variable [DecidableEq Thread]

def setThread (controller : GcController Thread) (thread : Thread) (phase : CallPhase) : GcController Thread :=
  { controller with threads := Function.update controller.threads thread phase }

def waitNotRunning (controller : GcController Thread) (thread : Thread) : GcController Thread :=
  if controller.isRunning then controller.setThread thread (.exclusiveWaiting false)
  else { controller.setThread thread .exclusive with holder := some thread }

def recheck (controller : GcController Thread) (thread : Thread) : Option (GcController Thread) :=
  match controller.threads thread with
  | .startWaiting curCount true =>
      if curCount = controller.finishedCount then some (controller.setThread thread (.startWaiting curCount false))
      else some (controller.setThread thread .outside)
  | .exclusiveWaiting true => some (controller.waitNotRunning thread)
  | _ => none

/-- `None` also where the mutex is not free. -/
def step (controller : GcController Thread) : Action Thread → Option (GcController Thread)
  | .start thread =>
      if controller.holder = none ∧ controller.threads thread = .outside then
        some ({ controller with isRequested := true }.notifyCondvar.setThread thread
          (.startWaiting controller.finishedCount false))
      else none
  | .runExclusive thread =>
      if controller.holder = none ∧ controller.threads thread = .outside then
        some (controller.waitNotRunning thread)
      else none
  | .leaveExclusive thread =>
      if controller.threads thread = .exclusive then
        some { controller.setThread thread .outside with holder := none }
      else none
  | .wake thread => if controller.holder = none then controller.recheck thread else none
  | .clearRequest thread =>
      if controller.holder = none ∧ controller.threads thread = .outside then
        some { controller with isRequested := false }
      else none
  | .shutdown thread =>
      if controller.holder = none ∧ controller.threads thread = .outside then
        some { controller.setThread thread .shuttingDown with isShuttingDown := true }
      else none
  | .notifyShutdown thread =>
      if controller.threads thread = .shuttingDown then some (controller.notifyCondvar.setThread thread .outside)
      else none
  | .enter =>
      if controller.holder = none ∧ controller.looper = .entering then some controller.loopHead else none
  | .wakeLooper =>
      if controller.holder = none ∧ controller.looper = .waiting true then some controller.waitForRequest else none
  | .snapshot =>
      if controller.holder = none ∧ controller.looper = .cycle false then
        some { controller with isRequested := false, looper := .cycle true }
      else none
  | .finishCycle =>
      match controller.looper with
      | .cycle _ =>
          if controller.holder = none then
            some { controller with
              finishedCount := controller.finishedCount + 1, isRunning := false }.notifyCycleDone.loopHead
          else none
      | _ => none

/-- Only the running cycle clears requests, and it does so once. -/
def collectorStep (controller : GcController Thread) (action : Action Thread) : Option (GcController Thread) :=
  match action with
  | .clearRequest _ => none
  | .finishCycle => if controller.looper = .cycle true then controller.step .finishCycle else none
  | action => controller.step action

end GcController

end UwUGC
