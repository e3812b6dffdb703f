import UwUGC.Pipe
import UwUGC.Lib.Transition
import Mathlib.Data.Fintype.Basic

/-! Safepoints and stop-the-world. Each step is one atomic action of one thread:
one acquisition or release of the `live_threads` mutex, one change of the counter,
one system call. A thread may own any number of guards. -/

set_option autoImplicit false

namespace UwUGC

/-- The enum has one variant without fields, so it takes no bytes. -/
inductive Command where
  | unregisterThread
deriving DecidableEq, Repr

instance : ByteSized Command where
  size := 0
  zeroSized := fun _ => .unregisterThread

namespace GcSync

/-- Where a thread stands inside the functions of `GCSync`. -/
inductive Phase where
  /-- Outside of them, or in the closure of `unguarded`. -/
  | running
  /-- `get_shared` with the mutex held, called by `enable_guard` if `enable`. -/
  | registering (enable : Bool)
  | registered
  /-- `disable_guard` whose `try_lock` got the mutex, called by `unguarded` if `reenable`. -/
  | unregistering (reenable : Bool)
  | unregistered
  /-- `disable_guard` whose `try_lock` failed, before the command is written. -/
  | notifying (reenable : Bool)
  /-- The read of `safepoint` on the removed lock page. -/
  | faulted
  /-- `get_exclusive` with the mutex held: before the page is removed, at the head
  of its loop, and after a `poll` with the events it reported. -/
  | removing
  | counting (blockedCount : Nat)
  | polled (blockedCount : Nat) (threadActivity uffdEvent : Bool)
  /-- The `ExclusiveGuard` exists. -/
  | exclusive
  /-- Its `drop` has made the page present again; the mutex is still held. -/
  | unlocking
deriving DecidableEq, Repr

structure ThreadState where
  /-- The active guards the thread owns. -/
  guards : Nat
  /-- The guards that a running `unguarded` has disabled. -/
  disabled : Nat
  phase : Phase
deriving DecidableEq, Repr

inductive Action where
  | lockShared (enable : Bool)
  | increment
  | tryLock (reenable : Bool)
  | decrement
  | notify
  | unlock
  | safepoint
  | lockExclusive
  | removePage
  | poll
  | readCommand
  | readEvent
  | enter
  | zeropage
deriving DecidableEq, Repr

end GcSync

open GcSync in
structure GcSync (Thread : Type) where
  threads : Thread → ThreadState
  /-- The holder of the `live_threads` mutex, and the counter in it. -/
  holder : Option Thread
  liveThreads : Nat
  /-- Whether the lock page is present. -/
  lockPage : Bool
  /-- The page faults that `uffd` has queued. -/
  faults : Nat
  gcCommands : Pipe Command

namespace GcSync

def u32Max : Nat := 2 ^ 32 - 1

variable {Thread : Type}

def new (capacity : Nat) : GcSync Thread where
  threads := fun _ => ⟨0, 0, .running⟩
  holder := none
  liveThreads := 0
  lockPage := true
  faults := 0
  gcCommands := Pipe.new capacity

variable [DecidableEq Thread]

def setThread (sync : GcSync Thread) (self : Thread) (thread : ThreadState) : GcSync Thread :=
  { sync with threads := Function.update sync.threads self thread }

@[simp] theorem setThread_self (sync : GcSync Thread) (self : Thread) (thread : ThreadState) :
    (sync.setThread self thread).threads self = thread := by
  simp [setThread]

@[simp] theorem setThread_of_ne (sync : GcSync Thread) {self other : Thread} (different : other ≠ self)
    (thread : ThreadState) : (sync.setThread self thread).threads other = sync.threads other := by
  simp [setThread, different]

/-- The mutex is taken: by `get_shared`, also for `enable_guard`, which puts a new
guard in the place of the disabled one. -/
def lockShared (sync : GcSync Thread) (self : Thread) (enable : Bool) : Option (GcSync Thread) :=
  let thread := sync.threads self
  if thread.phase = .running ∧ sync.holder = none ∧ (enable = true → 0 < thread.disabled) then
    some { sync.setThread self { thread with phase := .registering enable } with holder := some self }
  else none

/-- `+= 1`, which panics past `u32::MAX`. The guard is active from here on. -/
def increment (sync : GcSync Thread) (self : Thread) : Option (GcSync Thread) :=
  let thread := sync.threads self
  match thread.phase with
  | .registering enable =>
      if sync.liveThreads < u32Max then
        let disabled := if enable then thread.disabled - 1 else thread.disabled
        some { sync.setThread self ⟨thread.guards + 1, disabled, .registered⟩ with
          liveThreads := sync.liveThreads + 1 }
      else none
  | _ => none

/-- `disable_guard` up to its `try_lock`, from a drop or from `unguarded`. -/
def tryLock (sync : GcSync Thread) (self : Thread) (reenable : Bool) : Option (GcSync Thread) :=
  let thread := sync.threads self
  if thread.phase = .running ∧ 0 < thread.guards then
    match sync.holder with
    | some _ => some (sync.setThread self { thread with phase := .notifying reenable })
    | none =>
        some { sync.setThread self { thread with phase := .unregistering reenable } with holder := some self }
  else none

/-- The guard the thread had active is gone, or waits for `enable_guard`. A closure
that panics is caught, so it leads to `enable_guard` as one that returns does. -/
def ThreadState.disable (thread : ThreadState) (reenable : Bool) (phase : Phase) : ThreadState where
  guards := thread.guards - 1
  disabled := if reenable then thread.disabled + 1 else thread.disabled
  phase := phase

/-- `-= 1`, which panics below zero. -/
def decrement (sync : GcSync Thread) (self : Thread) : Option (GcSync Thread) :=
  let thread := sync.threads self
  match thread.phase with
  | .unregistering reenable =>
      if 0 < sync.liveThreads then
        some { sync.setThread self (thread.disable reenable .unregistered) with
          liveThreads := sync.liveThreads - 1 }
      else none
  | _ => none

/-- `write_blocking` of the command; a write that would block is tried again. -/
def notify (sync : GcSync Thread) (self : Thread) : Option (GcSync Thread) :=
  let thread := sync.threads self
  match thread.phase with
  | .notifying reenable =>
      match sync.gcCommands.write .unregisterThread with
      | .ok (none, gcCommands) =>
          some { sync.setThread self (thread.disable reenable .running) with gcCommands := gcCommands }
      | _ => none
  | _ => none

/-- The temporary guard of the mutex goes, or the one in the `ExclusiveGuard`. -/
def unlock (sync : GcSync Thread) (self : Thread) : Option (GcSync Thread) :=
  let thread := sync.threads self
  if thread.phase = .registered ∨ thread.phase = .unregistered ∨ thread.phase = .unlocking then
    some { sync.setThread self { thread with phase := .running } with holder := none }
  else none

/-- The read of the lock page goes through, or blocks and queues one page fault. -/
def safepoint (sync : GcSync Thread) (self : Thread) : Option (GcSync Thread) :=
  let thread := sync.threads self
  if thread.phase = .running ∧ 0 < thread.guards then
    if sync.lockPage then some sync
    else some { sync.setThread self { thread with phase := .faulted } with faults := sync.faults + 1 }
  else none

def lockExclusive (sync : GcSync Thread) (self : Thread) : Option (GcSync Thread) :=
  let thread := sync.threads self
  if thread.phase = .running ∧ sync.holder = none then
    some { sync.setThread self { thread with phase := .removing } with holder := some self }
  else none

def removePage (sync : GcSync Thread) (self : Thread) : Option (GcSync Thread) :=
  let thread := sync.threads self
  if thread.phase = .removing then
    some { sync.setThread self { thread with phase := .counting 0 } with lockPage := false }
  else none

/-- The body of the loop up to `poll`, which returns when there is something to read. -/
def poll (sync : GcSync Thread) (self : Thread) : Option (GcSync Thread) :=
  let thread := sync.threads self
  match thread.phase with
  | .counting blockedCount =>
      let threadActivity := sync.gcCommands.readable
      let uffdEvent := decide (0 < sync.faults)
      if blockedCount < sync.liveThreads ∧ (threadActivity || uffdEvent) = true then
        some (sync.setThread self { thread with phase := .polled blockedCount threadActivity uffdEvent })
      else none
  | _ => none

def readCommand (sync : GcSync Thread) (self : Thread) : Option (GcSync Thread) :=
  let thread := sync.threads self
  match thread.phase with
  | .polled blockedCount true uffdEvent =>
      match sync.gcCommands.read with
      | .ok (some .unregisterThread, gcCommands) =>
          if 0 < sync.liveThreads then
            some { sync with liveThreads := sync.liveThreads - 1, gcCommands := gcCommands }
          else none
      | .ok (none, gcCommands) =>
          some { sync.setThread self { thread with phase := .polled blockedCount false uffdEvent } with
            gcCommands := gcCommands }
      | .error _ => none
  | _ => none

def readEvent (sync : GcSync Thread) (self : Thread) : Option (GcSync Thread) :=
  let thread := sync.threads self
  match thread.phase with
  | .polled blockedCount false uffdEvent =>
      if uffdEvent = true ∧ 0 < sync.faults then
        some { sync.setThread self { thread with phase := .polled (blockedCount + 1) false true } with
          faults := sync.faults - 1 }
      else some (sync.setThread self { thread with phase := .counting blockedCount })
  | _ => none

def enter (sync : GcSync Thread) (self : Thread) : Option (GcSync Thread) :=
  let thread := sync.threads self
  match thread.phase with
  | .counting blockedCount =>
      if sync.liveThreads ≤ blockedCount then
        some (sync.setThread self { thread with phase := .exclusive })
      else none
  | _ => none

def ThreadState.wake (thread : ThreadState) : ThreadState :=
  if thread.phase = .faulted then { thread with phase := .running } else thread

def zeropage (sync : GcSync Thread) (self : Thread) : Option (GcSync Thread) :=
  let thread := sync.threads self
  if thread.phase = .exclusive then
    let woken := { sync with threads := fun other => (sync.threads other).wake, lockPage := true }
    some (woken.setThread self { thread with phase := .unlocking })
  else none

def step (sync : GcSync Thread) : Thread × Action → Option (GcSync Thread)
  | (self, .lockShared enable) => sync.lockShared self enable
  | (self, .increment) => sync.increment self
  | (self, .tryLock reenable) => sync.tryLock self reenable
  | (self, .decrement) => sync.decrement self
  | (self, .notify) => sync.notify self
  | (self, .unlock) => sync.unlock self
  | (self, .safepoint) => sync.safepoint self
  | (self, .lockExclusive) => sync.lockExclusive self
  | (self, .removePage) => sync.removePage self
  | (self, .poll) => sync.poll self
  | (self, .readCommand) => sync.readCommand self
  | (self, .readEvent) => sync.readEvent self
  | (self, .enter) => sync.enter self
  | (self, .zeropage) => sync.zeropage self

/-- The states and the schedules that lead to them. -/
def run (capacity : Nat) (schedule : List (Thread × Action)) : Option (GcSync Thread) :=
  Transition.run step (new capacity) schedule

end GcSync

end UwUGC
