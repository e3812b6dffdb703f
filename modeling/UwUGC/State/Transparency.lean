import UwUGC.State.CalmCycles

/-! From a new system on, in every run that is calm: the objects of the mutators stay whole over
any number of cycles, and the mutators cannot tell that a collector is there. -/

set_option autoImplicit false

namespace UwUGC

open Gc

/-- Where the two spaces of a new system may be mapped. -/
structure Mapped (firstBase secondBase nrPages : Nat) : Prop where
  first : firstBase ≠ 0
  second : secondBase ≠ 0
  firstWords : firstBase % 8 = 0
  secondWords : secondBase % 8 = 0
  apart : (PageTable.new firstBase nrPages).space.Separate (PageTable.new secondBase nrPages).space

/-- What happens while the copier runs: the mutators go on, and pages are filled where one of them
faults or where a worker comes to. -/
def State.Action.WhileRelocating {Request Thread : Type} : State.Action Request Thread → Prop
  | .collector (.resolve _) => True
  | .mutator _ _ => True
  | .collector _ => False

def State.Action.byMutator {Request Thread : Type} : State.Action Request Thread → Bool
  | .mutator _ _ => true
  | .collector _ => false

namespace State.System

variable {Types Request Thread : Type} {manager : TypeManager Types} {state next : System Types Thread} {objects : List Nat}
  {change : Request → Types → Except Panic Types} {firstBase secondBase nrPages : Nat} {types : Types}

theorem Sound.new (mapped : Mapped firstBase secondBase nrPages) :
    Sound manager (System.new firstBase secondBase nrPages types : System Types Thread) [] := by
  refine .resting (.inl rfl) rfl rfl ⟨⟨.new, ⟨nofun, nofun, nofun⟩, nofun, Mm.Allocator.placed_new _ _, nofun⟩, nofun, ?_, .nil⟩
  exact ⟨List.length_replicate, mapped.first, mapped.second, mapped.firstWords, mapped.secondWords, mapped.apart⟩

variable [DecidableEq Thread]

/-- One step of the whole system. -/
theorem Sound.step (sound : Sound manager state objects) {action : Action Request Thread}
    (calm : Calm manager change state action) (taken : System.step manager change state action = some next) :
    ∃ left, Sound manager next left ∧ Turns manager state next action objects left := by
  have steps := step_eq_some taken
  cases action with
  | collector action =>
      cases steps with
      | collector acted => exact sound.collector calm acted
  | mutator thread action =>
      by_cases asks : ∃ request, action = .request request
      · obtain ⟨request, rfl⟩ := asks
        cases steps with
        | operate _ _ operates =>
            cases operates with
            | request changed =>
                obtain ⟨after, carried⟩ := sound.retyped (calm.request rfl changed)
                exact ⟨objects, after, .stays rfl carried⟩
      · exact sound.mutator (fun request same => asks ⟨request, same⟩) calm steps

/-- What a maintainer can count on in every state: the objects that the mutators see are a heap that is
closed under pointers, in the space in use, with every root in it; none is marked for the next cycle;
and one space is spare when no cycle has it. -/
structure Kept (manager : TypeManager Types) (state : System Types Thread) (objects : List Nat) : Prop where
  live : Live manager (state.seen manager) objects
  unmarked : (∀ heap bit marking, state.phase ≠ .marking heap bit marking) → ∀ obj ∈ objects,
    ((state.seen manager).memory.metadata obj).isMarked = state.shared.markTrueBit.not
  spare : (state.phase = .idle ∨ state.phase = .flushed → ∃ second, state.shared.secondMm = [second] ∧
      state.shared.mm.space.Separate second.space) ∧
    (state.phase ≠ .idle → state.phase ≠ .flushed → state.shared.secondMm = [])

omit [DecidableEq Thread] in
theorem Sound.kept (sound : Sound manager state objects) : Kept manager state objects := by
  refine ⟨sound.live, ?_, ?_⟩
  · intro notMarking
    cases sound with
    | resting phase _ _ resting =>
        rw [seen_same fun copier relocates => by rcases phase with phase | phase <;> cases phase.symm.trans relocates]
        exact resting.unmarked
    | marking tracing => exact absurd tracing.sees.marks.phase (notMarking _ _ _)
    | relocating _ _ _ resting => simpa using resting.unmarked
    | cleared phase _ _ resting =>
        rw [seen_at phase nofun]
        exact resting.unmarked
  · cases sound with
    | resting phase received _ resting =>
        refine ⟨fun _ => ⟨_, received, resting.spaces.apart⟩, fun notIdle notFlushed => ?_⟩
        rcases phase with phase | phase
        · exact absurd phase notIdle
        · exact absurd phase notFlushed
    | marking tracing =>
        refine ⟨fun phase => ?_, fun _ _ => tracing.secondMm⟩
        rcases phase with phase | phase <;> cases tracing.sees.marks.phase.symm.trans phase
    | relocating relocating queue =>
        refine ⟨fun phase => ?_, fun _ _ => queue⟩
        rcases phase with phase | phase <;> cases relocating.phase.symm.trans phase
    | cleared cleared queue =>
        refine ⟨fun phase => ?_, fun _ _ => queue⟩
        rcases phase with phase | phase <;> cases cleared.symm.trans phase

theorem Sound.throughout (mapped : Mapped firstBase secondBase nrPages)
    {actions : List (Action Request Thread)}
    (each : Transition.EachStep (System.step manager change) (System.new firstBase secondBase nrPages types) actions
      (Calm manager change)) :
    Transition.Throughout (System.step manager change) (System.new firstBase secondBase nrPages types) actions
      fun state => ∃ objects, Sound manager state objects := by
  refine each.throughout _ ⟨[], .new mapped⟩ ?_
  rintro state action next ⟨objects, sound⟩ calm taken
  obtain ⟨left, after, _⟩ := sound.step calm taken
  exact ⟨left, after⟩

/-- Over any number of cycles, with mutators in every phase, a calm run keeps its objects. -/
theorem calm_runs_keep_objects (mapped : Mapped firstBase secondBase nrPages)
    {actions : List (Action Request Thread)}
    (each : Transition.EachStep (step manager change) (System.new firstBase secondBase nrPages types) actions
      (Calm manager change)) :
    Transition.Throughout (step manager change) (System.new firstBase secondBase nrPages types) actions
      fun state => ∃ objects, Kept manager state objects := by
  intro past rest state split reached
  obtain ⟨objects, sound⟩ := Sound.throughout mapped each past rest state split reached
  exact ⟨objects, sound.kept⟩

/-- What the mutators did to the store in a run, going by what they see of the heap. -/
def asked (manager : TypeManager Types) (change : Request → Types → Except Panic Types) (state : System Types Thread)
    (actions : List (Action Request Thread)) : List (HeapOp Thread) :=
  Transition.outputs (step manager change) (fun state action => (state.seen manager).asks manager action) state actions

/-- A step of the system is one of the store that the mutators have in mind, or none. -/
theorem Turns.matched {action : Action Request Thread} {left : List Nat} (turns : Turns manager state next action objects left)
    {names : Nat → Nat → Prop} {empty store : HeapStore Thread Nat} {ops : List (HeapOp Thread)}
    (ran : empty.Runs ops store) (bounded : store.Bounded)
    (similar : ObjectStore.Similar names ((state.seen manager).heapStore manager objects) store) :
    ∃ names, ∃ final : HeapStore Thread Nat, empty.Runs (ops ++ ((state.seen manager).asks manager action).toList) final ∧ final.Bounded ∧
      ObjectStore.Similar names ((next.seen manager).heapStore manager left) final := by
  cases turns with
  | @asked op _ same steps =>
      obtain ⟨names, final, taken, similar⟩ := similar.follows steps bounded.fresh
      rw [same]
      exact ⟨names, final, ran.concat taken, bounded.step taken, similar⟩
  | carried silent members carried =>
      rw [silent, Option.toList_none, List.append_nil]
      exact ⟨_, store, ran, bounded, (carried.similar members).symm.comp similar⟩

/-- The mutators cannot tell that a collector is there: what they asked for in a run could have been
asked of a store that keeps every object for ever, and the heap that they see is the same as that
store but for the identity of the objects. -/
theorem collector_transparent (mapped : Mapped firstBase secondBase nrPages)
    {actions : List (Action Request Thread)}
    (each : Transition.EachStep (step manager change) (System.new firstBase secondBase nrPages types) actions
      (Calm manager change)) {final : System Types Thread}
    (ran : Transition.run (step manager change) (System.new firstBase secondBase nrPages types) actions = some final) :
    ∃ objects names, ∃ store : HeapStore Thread Nat,
      ObjectStore.Runs .empty (asked manager change (System.new firstBase secondBase nrPages types) actions) store ∧
      ObjectStore.Similar names ((final.seen manager).heapStore manager objects) store := by
  have along := Transition.run_induction (fun past state => ∀ rest, actions = past ++ rest →
      ∃ objects names, ∃ store : HeapStore Thread Nat, Sound manager state objects ∧
        ObjectStore.Runs .empty (asked manager change (System.new firstBase secondBase nrPages types) past) store ∧ store.Bounded ∧
        ObjectStore.Similar names ((state.seen manager).heapStore manager objects) store) ran ?_ ?_ [] (by simp)
  · obtain ⟨objects, names, store, _, runs, _, similar⟩ := along
    exact ⟨objects, names, store, runs, similar⟩
  · intro _ _
    refine ⟨[], fun _ _ => False, .empty, .new mapped, .nil, ?_, ?_⟩
    · exact Set.finite_empty.subset fun id there => there rfl
    · have same : (System.new firstBase secondBase nrPages types : System Types Thread).seen manager = _ := seen_same nofun
      rw [same]
      exact .empty
  · intro past state action next reached before taken rest split
    rw [List.append_assoc, List.singleton_append] at split
    obtain ⟨objects, names, store, sound, runs, bounded, similar⟩ := before _ split
    obtain ⟨left, after, turns⟩ := sound.step (each past action rest state split reached) taken
    obtain ⟨names, final, runs, bounded, similar⟩ := turns.matched runs bounded similar
    refine ⟨left, names, final, after, ?_, bounded, similar⟩
    rw [asked, Transition.outputs_concat reached taken]
    exact runs

/-- A request to the types keeps the shapes of the objects, and of what is allocated the contract is kept. -/
structure KeepsTypes (manager : TypeManager Types) (change : Request → Types → Except Panic Types) (state : System Types Thread)
    (action : Action Request Thread) : Prop where
  described : action.Described manager state.shared.types
  request : ∀ {thread request types}, action = .mutator thread (.request request) →
    change request state.shared.types = .ok types → manager.KeepsObjects state.shared.types types

/-- A step of a mutator is the same step on the heap that it sees. -/
theorem Relocating.sees {copier : CopierActive} (relocating : Relocating manager state copier objects)
    {thread : Thread} {action : MutatorAction Request} (kept : KeepsTypes manager change state (.mutator thread action))
    (taken : Steps manager change state (.mutator thread action) next) :
    Steps manager change (state.seen manager) (.mutator thread action) (next.seen manager) ∧
      ∃ left, Relocating manager next copier left := by
  by_cases asks : ∃ request, action = .request request
  · obtain ⟨request, rfl⟩ := asks
    cases taken with
    | operate own found operates =>
        cases operates with
        | @request _ types changed =>
            obtain ⟨after, same⟩ := relocating.retyped (kept.request rfl changed)
            change Steps _ _ _ _ ((state.withTypes types).seen manager) ∧ _
            rw [same]
            refine ⟨?_, objects, after⟩
            have shared : (state.seen manager).shared = state.shared := seen_shared ..
            rw [← shared] at own found changed
            exact .operate own found (.request changed)
  · obtain ⟨seenTaken, after⟩ := relocating.mutator kept.described (fun request same => asks ⟨request, same⟩) taken
    exact ⟨seenTaken, _, after⟩

/-- When and in which order the pages are filled makes no difference to the mutators: on the heap that
they see from step 3 on, they take the same steps to the same heap. -/
theorem faults_unseen (mapped : Mapped firstBase secondBase nrPages)
    {past rest : List (Action Request Thread)}
    (each : Transition.EachStep (step manager change) (System.new firstBase secondBase nrPages types) past
      (Calm manager change)) {copier : CopierActive} {final : System Types Thread}
    (before : Transition.run (step manager change) (System.new firstBase secondBase nrPages types) past = some state)
    (phase : state.phase = .relocating copier) (only : ∀ action ∈ rest, action.WhileRelocating)
    (kept : Transition.EachStep (step manager change) state rest (KeepsTypes manager change))
    (ran : Transition.run (step manager change) state rest = some final) :
    Transition.run (step manager change) (state.seen manager) (rest.filter State.Action.byMutator) = some (final.seen manager) := by
  obtain ⟨objects, sound⟩ := Sound.throughout mapped each past [] state (List.append_nil past).symm before
  have relocating := (sound.of_relocating phase).1
  clear sound each before phase
  induction rest generalizing state copier objects with
  | nil =>
      cases ran
      rfl
  | cons action rest ih =>
      obtain ⟨next, taken, behind⟩ := Transition.run_cons_eq_some.mp ran
      have later := fun action member => only action (List.mem_cons_of_mem _ member)
      have further := kept.tail taken
      have steps := step_eq_some taken
      have here := only action List.mem_cons_self
      cases action with
      | mutator thread action =>
          obtain ⟨seenSteps, left, after⟩ := relocating.sees (kept [] _ rest state rfl rfl) steps
          rw [List.filter_cons_of_pos rfl, Transition.run_cons_eq_some]
          exact ⟨_, seenSteps.returns, ih later further behind _ after⟩
      | collector action =>
          rw [List.filter_cons_of_neg (by simp [State.Action.byMutator])]
          cases action with
          | resolve addr =>
              cases steps with
              | collector acted =>
                  obtain ⟨same, filled, after, _⟩ := relocating.resolve acted
                  rw [← same]
                  exact ih later further behind _ after
          | flush => cases here
          | step1 => cases here
          | mark => cases here
          | step3 => cases here
          | finish => cases here
          | step5 => cases here

section Examples

/-- What calm asks of a step when the types never change. -/
def calmly (state : System Unit Nat) : Action Unit Nat → Bool
  | .mutator thread (.store slot field from?) =>
      match state.phase, state.shared.contexts.own thread with
      | .marking _ _ _, some context =>
          match state.field TypeManager.pointerArrays context slot field, held context from? with
          | some address, some value => decide (state.memory address = value)
          | _, _ => true
      | _, _ => true
  | .mutator _ (.alloc _ _ _ _) =>
      match state.phase with
      | .marking _ _ _ => false
      | _ => true
  | .collector .step3 =>
      match state.phase with
      | .marking _ _ marking => decide (Mm.InPageOrder (marking.records.map RelocationRecord.size))
      | _ => true
  | _ => true

def unitStep : System Unit Nat → Action Unit Nat → Option (System Unit Nat) :=
  step TypeManager.pointerArrays fun _ types => .ok types

theorem calm_of_calmly (state : System Unit Nat) (action : Action Unit Nat) (checked : calmly state action = true) :
    Calm TypeManager.pointerArrays (fun _ types => .ok types) state action where
  described := action.described_pointerArrays
  store := by
    rintro heap bit marking thread context slot field from? address value phase rfl own found read obj covered
    simp only [calmly, phase, own, found, read, decide_eq_true_eq] at checked
    rw [← checked, Function.update_eq_self]
    exact covered
  alloc := by
    rintro heap bit marking thread context ty extraBytes init slot size place mmContext mm phase rfl
    simp only [calmly, phase] at checked
    cases checked
  request := by
    rintro thread request types _ ⟨⟩
    exact ⟨fun _ _ _ _ shape => shape, fun _ _ _ _ movable => movable⟩
  step1 := fun _ _ _ _ _ shape => shape
  step3 := by
    rintro heap bit marking rfl phase
    simp only [calmly, phase, decide_eq_true_eq] at checked
    exact ⟨checked, fun _ _ _ _ => TypeManager.pointerArrays_movable⟩

/-- An array goes through two cycles in which other objects die, while its thread reads it, and writes
it as soon as its page is there. -/
def twoCycles : List (Action Unit Nat) :=
  [.mutator 0 (.newContext 2), .mutator 0 (.alloc (.typed 1) 0 [0] 0), .mutator 0 (.store 0 0 (some 0)),
    .mutator 0 (.alloc (.plainOldData 8) 0 [7] 1), .mutator 0 (.assign 1 none), .collector .flush, .collector .step1,
    .collector .mark, .mutator 0 (.load 0 0 1), .mutator 0 (.store 0 0 (some 1)), .mutator 0 (.assign 1 none)] ++
  List.replicate 5 (.collector .mark) ++
  [.collector .step3, .collector (.resolve 8388608), .mutator 0 (.load 0 0 1), .mutator 0 (.request ()),
    .mutator 0 (.store 0 0 none), .collector .finish, .collector .step5, .mutator 1 (.newContext 1), .mutator 1 (.alloc (.plainOldData 8) 0 [] 0),
    .mutator 1 (.assign 0 none), .collector .flush, .collector .step1] ++
  List.replicate 7 (.collector .mark) ++
  [.collector .step3, .collector (.resolve 4194304), .mutator 0 (.load 0 0 1), .collector .finish, .collector .step5]

theorem twoCycles_calm : Transition.EachStep unitStep (System.new 4194304 8388608 2 ()) twoCycles
    (Calm TypeManager.pointerArrays fun _ types => .ok types) :=
  Transition.eachStep_of_everyStep calm_of_calmly (by decide +kernel)

theorem mapped_twoPages : Mapped 4194304 8388608 2 := by
  refine ⟨by decide, by decide, by decide, by decide, ?_⟩
  decide +kernel

theorem calm_runs_keep_objects_twoCycles :
    (Transition.run unitStep (System.new 4194304 8388608 2 ()) twoCycles).isSome = true ∧
      Transition.Throughout unitStep (System.new 4194304 8388608 2 ()) twoCycles
        fun state => ∃ objects, Kept TypeManager.pointerArrays state objects :=
  ⟨by decide +kernel, calm_runs_keep_objects mapped_twoPages twoCycles_calm⟩

/-- What the threads did to the store in these two cycles. -/
def doneInTwoCycles : List (HeapOp Nat) :=
  [.enter 0 2, .alloc 0 ⟨.notPlainOldData 1, 24, [(0, none)], []⟩ 0, .store 0 0 0 (some 0),
    .alloc 0 ⟨.plainOldData 8, 24, [], [(0, 7)]⟩ 1, .assign 0 1 none, .load 0 0 0 1, .store 0 0 0 (some 1), .assign 0 1 none,
    .load 0 0 0 1, .store 0 0 0 none, .enter 1 1, .alloc 1 ⟨.plainOldData 8, 24, [], []⟩ 0, .assign 1 0 none, .load 0 0 0 1]

theorem collector_transparent_twoCycles :
    ∃ final, Transition.run unitStep (System.new 4194304 8388608 2 ()) twoCycles = some final ∧
      ∃ objects names, ∃ store : HeapStore Nat Nat, ObjectStore.Runs .empty doneInTwoCycles store ∧
        ObjectStore.Similar names ((final.seen TypeManager.pointerArrays).heapStore TypeManager.pointerArrays objects)
          store := by
  obtain ⟨final, ran⟩ : ∃ final, Transition.run unitStep (System.new 4194304 8388608 2 ()) twoCycles = some final := by
    apply Option.isSome_iff_exists.mp
    decide +kernel
  have same : asked TypeManager.pointerArrays (fun _ types => .ok types) (System.new 4194304 8388608 2 ()) twoCycles =
      doneInTwoCycles := by
    decide +kernel
  rw [← same]
  exact ⟨final, ran, collector_transparent mapped_twoPages twoCycles_calm ran⟩

/-- The first cycle of these, up to the copier. -/
def untilCopier : List (Action Unit Nat) := twoCycles.take 17

theorem faults_unseen_twoCycles : ∃ state copier final,
    Transition.run unitStep (System.new 4194304 8388608 2 ()) untilCopier = some state ∧
      state.phase = .relocating copier ∧
      Transition.run unitStep state ((twoCycles.drop 17).take 4) = some final ∧
      Transition.run unitStep (state.seen TypeManager.pointerArrays)
          [.mutator 0 (.load 0 0 1), .mutator 0 (.request ()), .mutator 0 (.store 0 0 none)] =
        some (final.seen TypeManager.pointerArrays) := by
  have phases : ((Transition.run unitStep (System.new 4194304 8388608 2 ()) untilCopier).map fun state =>
      (match state.phase with
        | .relocating _ => true
        | .idle | .flushed | .marking _ _ _ | .cleared _ => false) && (Transition.run unitStep state ((twoCycles.drop 17).take 4)).isSome) = some true := by
    decide +kernel
  obtain ⟨state, before, rest⟩ := Option.map_eq_some_iff.mp phases
  obtain ⟨relocates, ends⟩ := Bool.and_eq_true_iff.mp rest
  obtain ⟨final, ran⟩ := Option.isSome_iff_exists.mp ends
  obtain ⟨copier, phase⟩ : ∃ copier, state.phase = .relocating copier := by
    cases phase : state.phase with
    | relocating copier => exact ⟨copier, rfl⟩
    | _ => simp [phase] at relocates
  have each : Transition.EachStep unitStep (System.new 4194304 8388608 2 ()) untilCopier
      (Calm TypeManager.pointerArrays fun _ types => .ok types) :=
    Transition.eachStep_of_everyStep calm_of_calmly (by decide +kernel)
  refine ⟨state, copier, final, before, phase, ran, ?_⟩
  refine faults_unseen mapped_twoPages each before phase ?_ ?_ ran
  · intro action member
    have listed : action ∈ [.collector (.resolve 8388608), .mutator 0 (.load 0 0 1), .mutator 0 (.request ()),
        .mutator 0 (.store 0 0 none)] := member
    simp only [List.mem_cons, List.not_mem_nil, or_false] at listed
    rcases listed with rfl | rfl | rfl | rfl <;> exact trivial
  · intro past action behind before split reached
    refine ⟨action.described_pointerArrays, ?_⟩
    intro thread request types same changed
    cases changed
    exact ⟨fun _ _ _ _ shape => shape, fun _ _ _ _ movable => movable⟩

end Examples

end State.System

end UwUGC
