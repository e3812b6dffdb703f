import UwUGC.GcSync
import Mathlib

/-! The counting invariant of `GCSync`. The counter is the number of active guards
and of the exits that were lost on the way to it, and while the lock page is gone the faults that were counted and
the ones still queued are the threads that block on it. -/

set_option autoImplicit false

namespace UwUGC.GcSync

open Finset

variable {Thread : Type}

def Phase.holds : Phase → Bool
  | .running | .notifying _ | .faulted => false
  | _ => true

def Phase.guarded : Phase → Bool
  | .unregistering _ | .notifying _ | .faulted => true
  | _ => false

def Phase.sawCommand : Phase → Bool
  | .polled _ threadActivity _ => threadActivity
  | _ => false

/-- What the holder of the mutex is about: nothing with the lock page, counting
the threads that block on it, or the exclusive section. -/
inductive Stage where
  | quiet
  | counting (blockedCount : Nat)
  | exclusive
deriving DecidableEq, Repr

def Phase.stage : Phase → Stage
  | .counting blockedCount => .counting blockedCount
  | .polled blockedCount _ _ => .counting blockedCount
  | .exclusive => .exclusive
  | _ => .quiet

def stage (sync : GcSync Thread) : Stage :=
  match sync.holder with
  | none => .quiet
  | some thread => (sync.threads thread).phase.stage

/-- The mutex is held by the thread whose phase says so. -/
def Held (sync : GcSync Thread) : Prop :=
  ∀ thread, (sync.threads thread).phase.holds = true ↔ sync.holder = some thread

/-- What a thread's own state always satisfies. -/
structure ThreadState.Sane (thread : ThreadState) : Prop where
  guarded : thread.phase.guarded = true → 0 < thread.guards
  noCommand : thread.phase.sawCommand = false

theorem Held.stage_eq {sync : GcSync Thread} {self : Thread} (held : sync.Held)
    (holds : (sync.threads self).phase.holds = true) : sync.stage = (sync.threads self).phase.stage := by
  rw [stage, (held self).mp holds]

section Moves

variable [DecidableEq Thread] {sync next : GcSync Thread} {self : Thread} {thread : ThreadState}

theorem Held.stay (held : sync.Held) (threads : next.threads = Function.update sync.threads self thread)
    (holder : next.holder = sync.holder) (same : thread.phase.holds = (sync.threads self).phase.holds) :
    next.Held := by
  intro other
  rw [threads, holder, ← held other]
  by_cases itself : other = self
  · subst itself
    rw [Function.update_self, same]
  · rw [Function.update_of_ne itself]

theorem Held.acquire (held : sync.Held) (threads : next.threads = Function.update sync.threads self thread)
    (free : sync.holder = none) (holder : next.holder = some self) (holds : thread.phase.holds = true) :
    next.Held := by
  intro other
  rw [threads, holder]
  by_cases itself : other = self
  · subst itself
    simp [holds]
  · have idle := held other
    rw [free] at idle
    rw [Function.update_of_ne itself]
    simpa [Ne.symm itself] using idle

theorem Held.release (held : sync.Held) (threads : next.threads = Function.update sync.threads self thread)
    (taken : (sync.threads self).phase.holds = true) (holder : next.holder = none)
    (idle : thread.phase.holds = false) : next.Held := by
  have mine := (held self).mp taken
  intro other
  rw [threads, holder]
  by_cases itself : other = self
  · subst itself
    simp [idle]
  · have others := held other
    rw [mine] at others
    rw [Function.update_of_ne itself]
    simpa [Ne.symm itself] using others

theorem Held.stage_stay (held : sync.Held)
    (threads : next.threads = Function.update sync.threads self thread) (holder : next.holder = sync.holder)
    (idle : (sync.threads self).phase.holds = false) : next.stage = sync.stage := by
  rw [stage, stage, holder]
  cases taken : sync.holder with
  | none => rfl
  | some other =>
      have different : other ≠ self := by
        rintro rfl
        rw [(held other).mpr taken] at idle
        cases idle
      simp only [threads, Function.update_of_ne different]

theorem stage_self (threads : next.threads = Function.update sync.threads self thread)
    (holder : next.holder = some self) : next.stage = thread.phase.stage := by
  rw [stage, holder, threads]
  simp

end Moves

variable [Fintype Thread]

def total (sync : GcSync Thread) (quantity : ThreadState → Nat) : Nat :=
  ∑ thread, quantity (sync.threads thread)

def activeGuards (sync : GcSync Thread) : Nat := sync.total ThreadState.guards

def ThreadState.blocked (thread : ThreadState) : Nat := if thread.phase = .faulted then 1 else 0

def blockedThreads (sync : GcSync Thread) : Nat := sync.total ThreadState.blocked

/-- The lock page, the faults and the threads at each stage. -/
def Window (sync : GcSync Thread) : Stage → Prop
  | .quiet => sync.lockPage = true ∧ sync.faults = 0 ∧ sync.blockedThreads = 0
  | .counting blockedCount => sync.lockPage = false ∧ blockedCount + sync.faults = sync.blockedThreads
  | .exclusive =>
      sync.lockPage = false ∧ sync.faults = 0 ∧
        ∀ thread, 0 < (sync.threads thread).guards → (sync.threads thread).phase = .faulted

/-- `lost` exits have not reached the counter. -/
structure Consistent (sync : GcSync Thread) (lost : Nat) : Prop where
  held : sync.Held
  sane : ∀ thread, (sync.threads thread).Sane
  counter : sync.liveThreads = sync.activeGuards + lost
  commands : sync.gcCommands.packets = []
  window : sync.Window sync.stage

theorem Consistent.new (capacity : Nat) : Consistent (GcSync.new capacity : GcSync Thread) 0 where
  held := by
    intro thread
    simp [GcSync.new, Phase.holds]
  sane := fun thread => ⟨by simp [GcSync.new, Phase.guarded], rfl⟩
  counter := by simp [activeGuards, total, GcSync.new]
  commands := rfl
  window := ⟨rfl, rfl, by simp [blockedThreads, total, GcSync.new, ThreadState.blocked]⟩

/-- A thread with an active guard that does not block keeps the others out. -/
theorem Consistent.not_exclusive {sync : GcSync Thread} {lost : Nat} {self : Thread}
    (consistent : Consistent sync lost)
    (guards : 0 < (sync.threads self).guards) (awake : (sync.threads self).phase ≠ .faulted) :
    sync.stage ≠ .exclusive := by
  intro exclusive
  have window := consistent.window
  rw [exclusive] at window
  exact awake (window.2.2 self guards)

/-- Outside of the exclusive section a fault that is queued as its thread blocks is
all that the window asks for. -/
theorem Window.later {sync next : GcSync Thread} {stage : Stage} (window : sync.Window stage)
    (other : stage ≠ .exclusive) (more : Nat) (page : next.lockPage = sync.lockPage)
    (faults : next.faults = sync.faults + more) (blocked : next.blockedThreads = sync.blockedThreads + more)
    (gone : 0 < more → sync.lockPage = false) : next.Window stage := by
  cases stage with
  | quiet =>
      obtain ⟨present, idle, awake⟩ := window
      have zero : more = 0 := by
        by_contra positive
        rw [gone (Nat.pos_of_ne_zero positive)] at present
        cases present
      exact ⟨page.trans present, by omega, by omega⟩
  | counting blockedCount =>
      obtain ⟨absent, counted⟩ := window
      exact ⟨page.trans absent, by omega⟩
  | exclusive => exact absurd rfl other

/-- A thread that owns a guard and does not block would make the guards outnumber
the threads that block. -/
theorem blocked_of_all_counted {sync : GcSync Thread} (sane : ∀ thread, (sync.threads thread).Sane)
    (all : sync.activeGuards ≤ sync.blockedThreads) (thread : Thread)
    (guards : 0 < (sync.threads thread).guards) : (sync.threads thread).phase = .faulted := by
  by_contra awake
  have each (other : Thread) : (sync.threads other).blocked ≤ (sync.threads other).guards := by
    unfold ThreadState.blocked
    split
    · next faulted => exact (sane other).guarded (by rw [faulted]; rfl)
    · exact Nat.zero_le _
  have strict : sync.blockedThreads < sync.activeGuards := by
    refine sum_lt_sum (fun other _ => each other) ⟨thread, mem_univ thread, ?_⟩
    rw [ThreadState.blocked, if_neg awake]
    exact guards
  omega

variable [DecidableEq Thread]

/-- What a move of one thread leaves of a total. -/
theorem total_update {sync next : GcSync Thread} {self : Thread} {thread : ThreadState}
    (threads : next.threads = Function.update sync.threads self thread) (quantity : ThreadState → Nat) :
    next.total quantity + quantity (sync.threads self) = sync.total quantity + quantity thread := by
  have split (threads : Thread → ThreadState) :
      ∑ other, quantity (threads other) =
        quantity (threads self) + ∑ other ∈ univ.erase self, quantity (threads other) :=
    (add_sum_erase univ _ (mem_univ self)).symm
  have same : ∑ other ∈ univ.erase self, quantity (Function.update sync.threads self thread other) =
      ∑ other ∈ univ.erase self, quantity (sync.threads other) := by
    refine sum_congr rfl fun other member => ?_
    rw [Function.update_of_ne (ne_of_mem_erase member)]
  simp only [total, threads]
  rw [split, split sync.threads, same, Function.update_self]
  omega

section Steps

variable {sync next : GcSync Thread} {lost : Nat} {self : Thread}

/-- One thread moves: what is left to show of the new state. -/
theorem Consistent.move {thread : ThreadState} {later : Nat} (consistent : Consistent sync lost)
    (threads : next.threads = Function.update sync.threads self thread) (held : next.Held)
    (sane : thread.Sane)
    (counter : next.liveThreads + (sync.threads self).guards + lost = sync.liveThreads + thread.guards + later)
    (commands : next.gcCommands.packets = []) (window : next.Window next.stage) : Consistent next later where
  held := held
  sane := by
    intro other
    rw [threads]
    by_cases itself : other = self
    · subst itself
      rwa [Function.update_self]
    · rw [Function.update_of_ne itself]
      exact consistent.sane other
  counter := by
    have moved := total_update threads ThreadState.guards
    have before := consistent.counter
    simp only [activeGuards] at before ⊢
    omega
  commands := commands
  window := window

theorem blockedThreads_awake {thread : ThreadState}
    (threads : next.threads = Function.update sync.threads self thread)
    (before : (sync.threads self).phase ≠ .faulted) (behind : thread.phase ≠ .faulted) :
    next.blockedThreads = sync.blockedThreads := by
  have moved := total_update threads ThreadState.blocked
  simp only [ThreadState.blocked, if_neg before, if_neg behind] at moved
  exact moved

theorem blockedThreads_faulted {thread : ThreadState}
    (threads : next.threads = Function.update sync.threads self thread)
    (before : (sync.threads self).phase ≠ .faulted) (behind : thread.phase = .faulted) :
    next.blockedThreads = sync.blockedThreads + 1 := by
  have moved := total_update threads ThreadState.blocked
  simp only [ThreadState.blocked, if_neg before, if_pos behind] at moved
  exact moved

theorem Consistent.hold {thread : ThreadState} (consistent : Consistent sync lost)
    (holds : (sync.threads self).phase.holds = true)
    (threads : next.threads = Function.update sync.threads self thread) (holder : next.holder = sync.holder)
    (still : thread.phase.holds = true) (sane : thread.Sane)
    (counter : next.liveThreads + (sync.threads self).guards = sync.liveThreads + thread.guards)
    (commands : next.gcCommands.packets = [])
    (window : sync.Window (sync.threads self).phase.stage → next.Window thread.phase.stage) :
    Consistent next lost := by
  refine consistent.move threads (consistent.held.stay threads holder (still.trans holds.symm)) sane (by omega)
    commands ?_
  rw [stage_self threads (holder.trans ((consistent.held self).mp holds))]
  apply window
  rw [← consistent.held.stage_eq holds]
  exact consistent.window

theorem Consistent.take {thread : ThreadState} (consistent : Consistent sync lost) (free : sync.holder = none)
    (threads : next.threads = Function.update sync.threads self thread) (holder : next.holder = some self)
    (holds : thread.phase.holds = true) (sane : thread.Sane)
    (counter : next.liveThreads + (sync.threads self).guards = sync.liveThreads + thread.guards)
    (commands : next.gcCommands.packets = [])
    (window : sync.Window .quiet → next.Window thread.phase.stage) : Consistent next lost := by
  refine consistent.move threads (consistent.held.acquire threads free holder holds) sane
    (by omega) commands ?_
  rw [stage_self threads holder]
  apply window
  have before := consistent.window
  rwa [stage, free] at before

theorem Consistent.idle {thread : ThreadState} {later : Nat} (consistent : Consistent sync lost)
    (idle : (sync.threads self).phase.holds = false)
    (threads : next.threads = Function.update sync.threads self thread) (holder : next.holder = sync.holder)
    (still : thread.phase.holds = false) (sane : thread.Sane)
    (counter : next.liveThreads + (sync.threads self).guards + lost = sync.liveThreads + thread.guards + later)
    (commands : next.gcCommands.packets = [])
    (window : sync.Window sync.stage → next.Window sync.stage) : Consistent next later := by
  refine consistent.move threads (consistent.held.stay threads holder (still.trans idle.symm)) sane counter
    commands ?_
  rw [consistent.held.stage_stay threads holder idle]
  exact window consistent.window

theorem Consistent.lockShared {enable : Bool} (consistent : Consistent sync lost)
    (taken : sync.lockShared self enable = some next) : Consistent next lost := by
  simp only [GcSync.lockShared, Option.ite_none_right_eq_some, Option.some.injEq] at taken
  obtain ⟨⟨running, free, _⟩, rfl⟩ := taken
  refine consistent.take free rfl rfl rfl ⟨nofun, rfl⟩ rfl consistent.commands fun window => ?_
  exact window.later nofun 0 rfl rfl (blockedThreads_awake rfl (by simp [running]) nofun) nofun

theorem Consistent.increment (consistent : Consistent sync lost) (taken : sync.increment self = some next) :
    Consistent next lost := by
  simp only [GcSync.increment] at taken
  split at taken
  · next enable phase =>
      simp only [Option.ite_none_right_eq_some, Option.some.injEq] at taken
      obtain ⟨_, rfl⟩ := taken
      refine consistent.hold (by rw [phase]; rfl) rfl rfl rfl ⟨nofun, rfl⟩ ?_ consistent.commands
        fun window => ?_
      · simp only
        omega
      · rw [phase] at window
        exact window.later nofun 0 rfl rfl (blockedThreads_awake rfl (by simp [phase]) nofun) nofun
  · cases taken

theorem Consistent.tryLock {reenable : Bool} (consistent : Consistent sync lost)
    (taken : sync.tryLock self reenable = some next) : Consistent next lost := by
  simp only [GcSync.tryLock, Option.ite_none_right_eq_some] at taken
  obtain ⟨⟨running, guards⟩, taken⟩ := taken
  have awake : (sync.threads self).phase ≠ .faulted := by simp [running]
  split at taken
  · cases taken
    refine consistent.idle (by rw [running]; rfl) rfl rfl rfl ⟨fun _ => guards, rfl⟩ rfl
      consistent.commands fun window => ?_
    exact window.later (consistent.not_exclusive guards awake) 0 rfl rfl
      (blockedThreads_awake rfl awake nofun) nofun
  · next free =>
      cases taken
      refine consistent.take free rfl rfl rfl ⟨fun _ => guards, rfl⟩ rfl consistent.commands
        fun window => ?_
      exact window.later nofun 0 rfl rfl (blockedThreads_awake rfl awake nofun) nofun

theorem Consistent.decrement (consistent : Consistent sync lost) (taken : sync.decrement self = some next) :
    Consistent next lost := by
  simp only [GcSync.decrement] at taken
  split at taken
  · next reenable phase =>
      simp only [Option.ite_none_right_eq_some, Option.some.injEq] at taken
      obtain ⟨positive, rfl⟩ := taken
      have guards := (consistent.sane self).guarded (by rw [phase]; rfl)
      refine consistent.hold (by rw [phase]; rfl) rfl rfl rfl ⟨nofun, rfl⟩ ?_ consistent.commands
        fun window => ?_
      · simp only [ThreadState.disable]
        omega
      · rw [phase] at window
        exact window.later nofun 0 rfl rfl (blockedThreads_awake rfl (by simp [phase]) nofun) nofun
  · cases taken

theorem write_command (pipe : Pipe Command) (command : Command) : pipe.write command = .ok (none, pipe) :=
  Pipe.write_zeroSized rfl pipe command

/-- The one step that loses an exit. -/
theorem Consistent.notify (consistent : Consistent sync lost) (taken : sync.notify self = some next) :
    Consistent next (lost + 1) := by
  simp only [GcSync.notify, write_command] at taken
  split at taken
  · next reenable phase =>
      cases taken
      have guards := (consistent.sane self).guarded (by rw [phase]; rfl)
      have awake : (sync.threads self).phase ≠ .faulted := by simp [phase]
      have behind : ((sync.threads self).disable reenable .running).phase ≠ .faulted := by simp [ThreadState.disable]
      refine consistent.idle (by rw [phase]; rfl) rfl rfl rfl ⟨by simp [ThreadState.disable, Phase.guarded], rfl⟩ ?_
        consistent.commands fun window => ?_
      · simp only [ThreadState.disable, setThread]
        omega
      · exact window.later (consistent.not_exclusive guards awake) 0 rfl rfl
          (blockedThreads_awake rfl awake behind) fun more => absurd more (Nat.lt_irrefl 0)
  · cases taken

theorem Consistent.unlock (consistent : Consistent sync lost) (taken : sync.unlock self = some next) :
    Consistent next lost := by
  simp only [GcSync.unlock, Option.ite_none_right_eq_some, Option.some.injEq] at taken
  obtain ⟨phase, rfl⟩ := taken
  have holds : (sync.threads self).phase.holds = true := by
    rcases phase with phase | phase | phase <;> rw [phase] <;> rfl
  have quiet : (sync.threads self).phase.stage = .quiet := by
    rcases phase with phase | phase | phase <;> rw [phase] <;> rfl
  have awake : (sync.threads self).phase ≠ .faulted := by
    rcases phase with phase | phase | phase <;> simp [phase]
  refine consistent.move rfl (consistent.held.release rfl holds rfl rfl) ⟨nofun, rfl⟩ rfl
    consistent.commands ?_
  have window := consistent.window
  rw [consistent.held.stage_eq holds, quiet] at window
  exact window.later nofun 0 rfl rfl (blockedThreads_awake rfl awake nofun) nofun

theorem Consistent.safepoint (consistent : Consistent sync lost) (taken : sync.safepoint self = some next) :
    Consistent next lost := by
  simp only [GcSync.safepoint, Option.ite_none_right_eq_some] at taken
  obtain ⟨⟨running, guards⟩, taken⟩ := taken
  have awake : (sync.threads self).phase ≠ .faulted := by simp [running]
  split at taken
  · cases taken
    exact consistent
  · next gone =>
      cases taken
      refine consistent.idle (by rw [running]; rfl) rfl rfl rfl ⟨fun _ => guards, rfl⟩ rfl
        consistent.commands fun window => ?_
      exact window.later (consistent.not_exclusive guards awake) 1 rfl rfl
        (blockedThreads_faulted rfl awake rfl) fun _ => by simpa using gone

theorem Consistent.lockExclusive (consistent : Consistent sync lost)
    (taken : sync.lockExclusive self = some next) : Consistent next lost := by
  simp only [GcSync.lockExclusive, Option.ite_none_right_eq_some, Option.some.injEq] at taken
  obtain ⟨⟨running, free⟩, rfl⟩ := taken
  refine consistent.take free rfl rfl rfl ⟨nofun, rfl⟩ rfl consistent.commands fun window => ?_
  exact window.later nofun 0 rfl rfl (blockedThreads_awake rfl (by simp [running]) nofun) nofun

theorem Consistent.removePage (consistent : Consistent sync lost) (taken : sync.removePage self = some next) :
    Consistent next lost := by
  simp only [GcSync.removePage, Option.ite_none_right_eq_some, Option.some.injEq] at taken
  obtain ⟨phase, rfl⟩ := taken
  refine consistent.hold (by rw [phase]; rfl) rfl rfl rfl ⟨nofun, rfl⟩ rfl consistent.commands
    fun window => ?_
  rw [phase] at window
  obtain ⟨_, noFaults, noneBlocked⟩ := window
  refine ⟨rfl, Eq.trans ?_ (blockedThreads_awake rfl (by simp [phase]) (by simp)).symm⟩
  rw [noneBlocked, Nat.zero_add]
  exact noFaults

theorem Consistent.poll (consistent : Consistent sync lost) (taken : sync.poll self = some next) :
    Consistent next lost := by
  simp only [GcSync.poll] at taken
  split at taken
  · next blockedCount phase =>
      simp only [Option.ite_none_right_eq_some, Option.some.injEq] at taken
      obtain ⟨_, rfl⟩ := taken
      -- The pipe is empty, so the poll reported a fault.
      have noCommand : sync.gcCommands.readable = false := by
        simp [Pipe.readable, consistent.commands]
      refine consistent.hold (by rw [phase]; rfl) rfl rfl rfl ⟨nofun, noCommand⟩ rfl
        consistent.commands fun window => ?_
      rw [phase] at window
      exact window.later nofun 0 rfl rfl (blockedThreads_awake rfl (by simp [phase]) nofun) nofun
  · cases taken

theorem Consistent.readCommand (consistent : Consistent sync lost)
    (taken : sync.readCommand self = some next) : Consistent next lost := by
  simp only [GcSync.readCommand] at taken
  split at taken
  · next phase =>
      have never := (consistent.sane self).noCommand
      rw [phase] at never
      cases never
  · cases taken

theorem Consistent.readEvent (consistent : Consistent sync lost) (taken : sync.readEvent self = some next) :
    Consistent next lost := by
  simp only [GcSync.readEvent] at taken
  split at taken
  · next blockedCount uffdEvent phase =>
      have awake : (sync.threads self).phase ≠ .faulted := by simp [phase]
      split at taken
      · next event =>
          cases taken
          refine consistent.hold (by rw [phase]; rfl) rfl rfl rfl ⟨nofun, rfl⟩ rfl
            consistent.commands fun window => ?_
          rw [phase] at window
          obtain ⟨gone, counted⟩ := window
          refine ⟨gone, Eq.trans ?_ (blockedThreads_awake rfl awake (by simp)).symm⟩
          rw [← counted]
          simp only
          omega
      · cases taken
        refine consistent.hold (by rw [phase]; rfl) rfl rfl rfl ⟨nofun, rfl⟩ rfl
          consistent.commands fun window => ?_
        rw [phase] at window
        exact window.later nofun 0 rfl rfl (blockedThreads_awake rfl awake nofun) nofun
  · cases taken

theorem Consistent.enter (consistent : Consistent sync lost) (taken : sync.enter self = some next) :
    Consistent next lost := by
  simp only [GcSync.enter] at taken
  split at taken
  · next blockedCount phase =>
      simp only [Option.ite_none_right_eq_some, Option.some.injEq] at taken
      obtain ⟨reached, rfl⟩ := taken
      have awake : (sync.threads self).phase ≠ .faulted := by simp [phase]
      refine consistent.hold (by rw [phase]; rfl) rfl rfl rfl ⟨nofun, rfl⟩ rfl
        consistent.commands fun window => ?_
      rw [phase] at window
      obtain ⟨gone, counted⟩ := window
      have counter := consistent.counter
      have all : sync.activeGuards ≤ sync.blockedThreads := by omega
      have blocked := blocked_of_all_counted consistent.sane all
      have noMore : sync.blockedThreads ≤ sync.activeGuards := by
        refine sum_le_sum fun other _ => ?_
        unfold ThreadState.blocked
        split
        · next faulted => exact (consistent.sane other).guarded (by rw [faulted]; rfl)
        · exact Nat.zero_le _
      refine ⟨gone, ?_, ?_⟩
      · simp only [setThread]
        omega
      · intro other guards
        by_cases itself : other = self
        · subst itself
          rw [setThread_self] at guards
          exact absurd (blocked other guards) awake
        · rw [setThread_of_ne _ itself] at guards ⊢
          exact blocked other guards
  · cases taken

theorem ThreadState.wake_guards (thread : ThreadState) : thread.wake.guards = thread.guards := by
  unfold wake
  split <;> rfl

theorem ThreadState.wake_phase (thread : ThreadState) : thread.wake.phase ≠ .faulted := by
  unfold wake
  split
  · nofun
  · next awake => exact awake

theorem ThreadState.wake_holds (thread : ThreadState) : thread.wake.phase.holds = thread.phase.holds := by
  unfold wake
  split
  · next faulted => rw [faulted]; rfl
  · rfl

theorem ThreadState.Sane.wake {thread : ThreadState} (sane : thread.Sane) : thread.wake.Sane := by
  unfold ThreadState.wake
  split
  · exact ⟨nofun, rfl⟩
  · exact sane

/-- Waking all readers and moving the holder on leaves no thread blocked. -/
theorem Consistent.zeropage (consistent : Consistent sync lost) (taken : sync.zeropage self = some next) :
    Consistent next lost := by
  simp only [GcSync.zeropage, Option.ite_none_right_eq_some, Option.some.injEq] at taken
  obtain ⟨phase, rfl⟩ := taken
  have holds : (sync.threads self).phase.holds = true := by rw [phase]; rfl
  have mine := (consistent.held self).mp holds
  have window := consistent.window
  rw [consistent.held.stage_eq holds, phase] at window
  obtain ⟨_, noFaults, _⟩ := window
  let woken : GcSync Thread :=
    { sync with threads := fun other => (sync.threads other).wake, lockPage := true }
  have still : woken.Held := by
    intro other
    rw [← consistent.held other]
    simp only [woken, ThreadState.wake_holds]
  have sameGuards : woken.activeGuards = sync.activeGuards := by
    simp only [activeGuards, total, woken, ThreadState.wake_guards]
  have guards : (woken.threads self).guards = (sync.threads self).guards := ThreadState.wake_guards _
  have quiet : woken.blockedThreads = 0 := by
    simp only [blockedThreads, total, woken, ThreadState.blocked, if_neg (ThreadState.wake_phase _),
      sum_const_zero]
  let last : ThreadState := { sync.threads self with phase := .unlocking }
  have moved : (woken.setThread self last).threads = Function.update woken.threads self last := rfl
  refine ⟨still.stay rfl rfl ?_, ?_, ?_, consistent.commands, ?_⟩
  · rw [ThreadState.wake_holds, holds]
    rfl
  · intro other
    by_cases itself : other = self
    · subst itself
      rw [setThread_self]
      exact ⟨nofun, rfl⟩
    · rw [setThread_of_ne _ itself]
      exact (consistent.sane other).wake
  · have counted := total_update moved ThreadState.guards
    have before := consistent.counter
    simp only [activeGuards] at sameGuards before ⊢
    have same : last.guards = (sync.threads self).guards := rfl
    rw [guards, same] at counted
    change sync.liveThreads = total (woken.setThread self last) ThreadState.guards + lost
    omega
  · have stage : (woken.setThread self last).stage = .quiet := stage_self moved mine
    rw [stage]
    refine ⟨rfl, noFaults, ?_⟩
    rw [← quiet]
    exact blockedThreads_awake rfl (ThreadState.wake_phase _) nofun

def Action.loses : Action → Nat
  | .notify => 1
  | _ => 0

theorem Consistent.step {action : Action} (consistent : Consistent sync lost)
    (taken : sync.step (self, action) = some next) : Consistent next (lost + action.loses) := by
  cases action with
  | lockShared enable => exact consistent.lockShared taken
  | increment => exact consistent.increment taken
  | tryLock reenable => exact consistent.tryLock taken
  | decrement => exact consistent.decrement taken
  | notify => exact consistent.notify taken
  | unlock => exact consistent.unlock taken
  | safepoint => exact consistent.safepoint taken
  | lockExclusive => exact consistent.lockExclusive taken
  | removePage => exact consistent.removePage taken
  | poll => exact consistent.poll taken
  | readCommand => exact consistent.readCommand taken
  | readEvent => exact consistent.readEvent taken
  | enter => exact consistent.enter taken
  | zeropage => exact consistent.zeropage taken

end Steps

def lostExits (schedule : List (Thread × Action)) : Nat := (schedule.map fun taken => taken.2.loses).sum

theorem run_consistent {capacity : Nat} {schedule : List (Thread × Action)} {sync : GcSync Thread}
    (ran : run capacity schedule = some sync) : Consistent sync (lostExits schedule) := by
  refine Transition.run_induction (fun past state => Consistent state (lostExits past)) ran
    (Consistent.new capacity) ?_
  intro past state action next _ consistent taken
  have stepped := consistent.step taken
  simpa [lostExits] using stepped

/-- In every run the threads with an active guard block on the removed page
whenever an `ExclusiveGuard` exists, and there is never a second one. -/
theorem exclusive_excludes {capacity : Nat} {schedule : List (Thread × Action)} {sync : GcSync Thread}
    (ran : run capacity schedule = some sync) :
    (∀ writer, (sync.threads writer).phase = .exclusive → sync.lockPage = false ∧
      ∀ thread, 0 < (sync.threads thread).guards → (sync.threads thread).phase = .faulted) ∧
    ∀ first second, (sync.threads first).phase = .exclusive ∨ (sync.threads first).phase = .unlocking →
      (sync.threads second).phase = .exclusive ∨ (sync.threads second).phase = .unlocking →
      first = second := by
  have consistent := run_consistent ran
  have holds {thread : Thread}
      (guard : (sync.threads thread).phase = .exclusive ∨ (sync.threads thread).phase = .unlocking) :
      sync.holder = some thread := by
    rw [← consistent.held thread]
    rcases guard with phase | phase <;> rw [phase] <;> rfl
  constructor
  · intro writer exclusive
    have window := consistent.window
    rw [consistent.held.stage_eq (by rw [exclusive]; rfl), exclusive] at window
    exact ⟨window.1, window.2.2⟩
  · intro first second firstGuard secondGuard
    exact Option.some.inj ((holds firstGuard).symm.trans (holds secondGuard))

def stopSchedule : List (Fin 2 × Action) :=
  [(0, .lockShared false), (0, .increment), (0, .unlock), (1, .lockExclusive), (1, .removePage),
    (0, .safepoint), (1, .poll), (1, .readEvent), (1, .readEvent), (1, .enter)]

theorem exclusive_excludes_stopped :
    ∃ sync, run 16 stopSchedule = some sync ∧ (sync.threads 1).phase = .exclusive ∧
      (sync.threads 0).guards = 1 ∧
      ∀ thread, 0 < (sync.threads thread).guards → (sync.threads thread).phase = .faulted := by
  have reached : (run 16 stopSchedule).any (fun sync =>
      (sync.threads 1).phase = .exclusive ∧ (sync.threads 0).guards = 1) = true := by
    decide
  obtain ⟨sync, ran, found⟩ := (Option.any_eq_true _ _).mp reached
  obtain ⟨exclusive, guards⟩ := of_decide_eq_true found
  exact ⟨sync, ran, exclusive, guards, ((exclusive_excludes ran).1 1 exclusive).2⟩

end UwUGC.GcSync
