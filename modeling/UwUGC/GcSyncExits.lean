import UwUGC.GcSyncProperties

/-! Exits of threads. An exit that finds the mutex free is counted at once. One
that does not is written to the pipe, and a command takes no bytes there. -/

set_option autoImplicit false

namespace UwUGC.GcSync

variable {Thread : Type}

section Alone

variable [DecidableEq Thread] {sync : GcSync Thread} {writer : Thread} {blockedCount : Nat}

/-- The loop of `get_exclusive` can be left by steps of its own thread. -/
def CanEnter (sync : GcSync Thread) (writer : Thread) : Prop :=
  ∃ (actions : List Action) (final : GcSync Thread),
    Transition.run step sync (actions.map fun action => (writer, action)) = some final ∧
    (final.threads writer).phase = .exclusive

theorem CanEnter.after {next : GcSync Thread} {action : Action}
    (taken : sync.step (writer, action) = some next) (later : CanEnter next writer) : CanEnter sync writer := by
  obtain ⟨actions, final, ran, exclusive⟩ := later
  exact ⟨action :: actions, final, Transition.run_cons_eq_some.mpr ⟨next, taken, ran⟩, exclusive⟩

theorem CanEnter.of_counted (phase : (sync.threads writer).phase = .counting blockedCount)
    (reached : sync.liveThreads ≤ blockedCount) : CanEnter sync writer := by
  have taken : sync.step (writer, .enter) =
      some (sync.setThread writer { sync.threads writer with phase := .exclusive }) := by
    simp [step, enter, phase, reached]
  exact ⟨[.enter], _, Transition.run_cons_eq_some.mpr ⟨_, taken, rfl⟩, by rw [setThread_self]⟩

theorem step_readEvent_done {uffdEvent : Bool}
    (phase : (sync.threads writer).phase = .polled blockedCount false uffdEvent)
    (done : uffdEvent = true → sync.faults = 0) :
    sync.step (writer, .readEvent) =
      some (sync.setThread writer { sync.threads writer with phase := .counting blockedCount }) := by
  cases uffdEvent with
  | true => simp [step, readEvent, phase, done rfl]
  | false => simp [step, readEvent, phase]

theorem CanEnter.of_polled (remaining : Nat)
    (phase : (sync.threads writer).phase = .polled blockedCount false true)
    (faults : sync.faults = remaining) (due : sync.liveThreads = blockedCount + remaining) :
    CanEnter sync writer := by
  induction remaining generalizing sync blockedCount with
  | zero =>
      refine .after (step_readEvent_done phase fun _ => faults) (.of_counted ?_ (Nat.le_of_eq due))
      rw [setThread_self, Nat.add_zero]
  | succ remaining ih =>
      have taken : sync.step (writer, .readEvent) =
          some { sync.setThread writer { sync.threads writer with
            phase := .polled (blockedCount + 1) false true } with faults := sync.faults - 1 } := by
        simp [step, readEvent, phase, faults]
      refine .after taken (ih (?_ : _ = Phase.polled (blockedCount + 1) false true) ?_ ?_)
      · simp
      · simp [faults]
      · simp only [setThread]
        omega

theorem CanEnter.of_counting (phase : (sync.threads writer).phase = .counting blockedCount)
    (commands : sync.gcCommands.packets = []) (due : sync.liveThreads = blockedCount + sync.faults) :
    CanEnter sync writer := by
  cases queued : sync.faults with
  | zero => exact .of_counted phase (by omega)
  | succ more =>
      have taken : sync.step (writer, .poll) =
          some (sync.setThread writer { sync.threads writer with
            phase := .polled blockedCount false true }) := by
        have behind : blockedCount < sync.liveThreads := by omega
        simp [step, poll, phase, behind, queued, Pipe.readable, commands]
      refine .after taken (.of_polled sync.faults ?_ rfl due)
      rw [setThread_self]

end Alone

theorem lostExits_eq_zero {schedule : List (Thread × Action)} :
    lostExits schedule = 0 ↔ ∀ taken ∈ schedule, taken.2 ≠ .notify := by
  have loses (action : Action) : action.loses = 0 ↔ action ≠ .notify := by
    cases action <;> simp [Action.loses]
  simp only [lostExits, List.sum_eq_zero_iff, List.forall_mem_map, loses]

variable [Fintype Thread]

/-- The counter less the commands that can still be read is the number of active guards. -/
def ExitsCounted (sync : GcSync Thread) : Prop :=
  sync.liveThreads = sync.activeGuards + sync.gcCommands.packets.length

instance (sync : GcSync Thread) : Decidable (ExitsCounted sync) := inferInstanceAs (Decidable (_ = _))

variable [DecidableEq Thread]

/-- Once every thread with an active guard has faulted, with one such guard each, the
loop that counts them can be left. -/
def ExitReachable (sync : GcSync Thread) : Prop :=
  ∀ writer blockedCount, (sync.threads writer).phase.stage = .counting blockedCount →
    (∀ thread, 0 < (sync.threads thread).guards →
      (sync.threads thread).phase = .faulted ∧ (sync.threads thread).guards = 1) →
    CanEnter sync writer

theorem Consistent.exitReachable {sync : GcSync Thread} (consistent : Consistent sync 0) :
    ExitReachable sync := by
  intro writer blockedCount stage faulted
  have each (thread : Thread) : (sync.threads thread).guards = (sync.threads thread).blocked := by
    unfold ThreadState.blocked
    split
    · next phase =>
        exact (faulted thread ((consistent.sane thread).guarded (by rw [phase]; rfl))).2
    · next awake =>
        by_contra guards
        exact awake (faulted thread (Nat.pos_of_ne_zero guards)).1
  have all : sync.activeGuards = sync.blockedThreads := by
    simp only [activeGuards, blockedThreads, total, each]
  have counter := consistent.counter
  have holds : (sync.threads writer).phase.holds = true := by
    cases phase : (sync.threads writer).phase <;> simp_all [Phase.stage, Phase.holds]
  have window := consistent.window
  rw [consistent.held.stage_eq holds, stage] at window
  have due : sync.liveThreads = blockedCount + sync.faults := by
    have counted := window.2
    omega
  cases phase : (sync.threads writer).phase with
  | counting count =>
      rw [phase] at stage
      cases stage
      exact .of_counting phase consistent.commands due
  | polled count threadActivity uffdEvent =>
      have noCommand := (consistent.sane writer).noCommand
      rw [phase] at stage noCommand
      cases stage
      cases noCommand
      cases uffdEvent with
      | true => exact .of_polled sync.faults phase rfl due
      | false =>
          refine .after (step_readEvent_done phase fun read => absurd read Bool.false_ne_true)
            (.of_counting ?_ consistent.commands due)
          rw [setThread_self]
  | _ =>
      rw [phase] at stage
      cases stage

/-- The exits of a run are all counted, and stay so, exactly when no thread of it
gets to write a command. -/
theorem exits_counted_iff {capacity : Nat} {schedule : List (Thread × Action)} {sync : GcSync Thread}
    (ran : run capacity schedule = some sync) :
    Transition.Throughout step (GcSync.new capacity) schedule
        (fun state => ExitsCounted state ∧ ExitReachable state) ↔
      ∀ taken ∈ schedule, taken.2 ≠ .notify := by
  rw [← lostExits_eq_zero]
  constructor
  · intro counted
    have exits := (counted schedule [] sync (by simp) ran).1
    have consistent := run_consistent ran
    have counter := consistent.counter
    simp only [ExitsCounted, consistent.commands, List.length_nil] at exits
    omega
  · intro none past rest state split before
    have consistent := run_consistent before
    have zero : lostExits past = 0 := by
      rw [split, lostExits, List.map_append, List.sum_append] at none
      simp only [lostExits]
      omega
    rw [zero] at consistent
    refine ⟨?_, consistent.exitReachable⟩
    simpa [ExitsCounted, consistent.commands] using consistent.counter

/-- The collector stops one mutator while another is outside of all guards. -/
theorem exits_counted_iff_stopped :
    ∃ sync, run 16 stopSchedule = some sync ∧ ExitsCounted sync := by
  have returned : (run 16 stopSchedule).isSome = true := by decide
  obtain ⟨sync, ran⟩ := Option.isSome_iff_exists.mp returned
  have counted := (exits_counted_iff ran).mpr (by decide)
  exact ⟨sync, ran, (counted stopSchedule [] sync (by simp) ran).1⟩

/-- Thread 0 drops its guard while thread 1 holds the mutex to get one. Thread 2
then collects, and thread 1 stops for it. -/
def overlapSchedule : List (Fin 3 × Action) :=
  [(0, .lockShared false), (0, .increment), (0, .unlock), (1, .lockShared false), (0, .tryLock false),
    (1, .increment), (1, .unlock), (0, .notify), (2, .lockExclusive), (2, .removePage), (1, .safepoint),
    (2, .poll), (2, .readEvent), (2, .readEvent)]

/-- The exit of thread 0 is lost: the counter stays at two with one active guard and
nothing to read, and the collector is left without a step. -/
theorem overlap_loses_exit :
    ∃ sync, run 16 overlapSchedule = some sync ∧ ¬ ExitsCounted sync ∧ sync.gcCommands.packets = [] ∧
      (∀ thread, 0 < (sync.threads thread).guards → (sync.threads thread).phase = .faulted) ∧
      (sync.threads 2).phase = .counting 1 ∧
      ∀ action ∈ [Action.poll, .readCommand, .readEvent, .enter], (sync.step (2, action)).isNone = true := by
  have stuck : (run 16 overlapSchedule).any (fun sync =>
      ¬ ExitsCounted sync ∧ sync.gcCommands.packets = [] ∧
      (∀ thread, 0 < (sync.threads thread).guards → (sync.threads thread).phase = .faulted) ∧
      (sync.threads 2).phase = .counting 1 ∧
      ∀ action ∈ [Action.poll, .readCommand, .readEvent, .enter],
        (sync.step (2, action)).isNone = true) = true := by
    decide
  obtain ⟨sync, ran, found⟩ := (Option.any_eq_true _ _).mp stuck
  exact ⟨sync, ran, of_decide_eq_true found⟩

end UwUGC.GcSync
