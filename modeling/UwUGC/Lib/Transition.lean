import Mathlib.Data.List.Induction

/-! Runs of a partial step function that is driven by actions. A step that an
action cannot take in a state is `none`, and so is every run through it. -/

set_option autoImplicit false

namespace Transition

variable {State Action : Type} {step : State → Action → Option State}

def run (step : State → Action → Option State) (state : State) : List Action → Option State
  | [] => some state
  | action :: rest => (step state action).bind fun next => run step next rest

@[simp] theorem run_nil (state : State) : run step state [] = some state := rfl

theorem run_cons_eq_some {state final : State} {action : Action} {rest : List Action} :
    run step state (action :: rest) = some final ↔
      ∃ next, step state action = some next ∧ run step next rest = some final :=
  Option.bind_eq_some_iff

theorem run_append_eq_some {state final : State} {past rest : List Action} :
    run step state (past ++ rest) = some final ↔
      ∃ middle, run step state past = some middle ∧ run step middle rest = some final := by
  induction past generalizing state with
  | nil => simp
  | cons action past ih =>
      simp only [List.cons_append, run_cons_eq_some, ih]
      constructor
      · rintro ⟨next, taken, middle, before, behind⟩
        exact ⟨middle, ⟨next, taken, before⟩, behind⟩
      · rintro ⟨middle, ⟨next, taken, before⟩, behind⟩
        exact ⟨next, taken, middle, before, behind⟩

theorem run_concat_eq_some {state final : State} {past : List Action} {action : Action} :
    run step state (past ++ [action]) = some final ↔
      ∃ middle, run step state past = some middle ∧ step middle action = some final := by
  simp only [run_append_eq_some, run_cons_eq_some, run_nil, Option.some.injEq, exists_eq_right]

/-- What the steps of a run give out, each in the state it is taken from. -/
def outputs {Output : Type} (step : State → Action → Option State) (output : State → Action → Option Output) (state : State) :
    List Action → List Output
  | [] => []
  | action :: rest => (output state action).toList ++
      match step state action with
      | none => []
      | some next => outputs step output next rest

theorem outputs_concat {Output : Type} {output : State → Action → Option Output} {start state next : State}
    {past : List Action} {action : Action} (ran : run step start past = some state) (taken : step state action = some next) :
    outputs step output start (past ++ [action]) = outputs step output start past ++ (output state action).toList := by
  induction past generalizing start with
  | nil =>
      cases ran
      simp [outputs, taken]
  | cons first past ih =>
      obtain ⟨middle, before, behind⟩ := run_cons_eq_some.mp ran
      simp only [List.cons_append, outputs, before, ih behind, List.append_assoc]

/-- The rule for runs: what holds at the start and over every step, of the
actions so far and the state they lead to, holds at the end. -/
theorem run_induction {start final : State} {actions : List Action} (motive : List Action → State → Prop)
    (ran : run step start actions = some final) (initial : motive [] start)
    (preserved : ∀ past state action next, run step start past = some state → motive past state →
      step state action = some next → motive (past ++ [action]) next) : motive actions final := by
  induction actions using List.reverseRecOn generalizing final with
  | nil =>
      cases ran
      exact initial
  | append_singleton past action ih =>
      obtain ⟨state, before, taken⟩ := run_concat_eq_some.mp ran
      exact preserved past state action final before (ih before) taken

theorem run_invariant {start final : State} {actions : List Action} (invariant : State → Prop)
    (ran : run step start actions = some final) (initial : invariant start)
    (preserved : ∀ state action next, invariant state → step state action = some next → invariant next) :
    invariant final :=
  run_induction (fun _ => invariant) ran initial fun _ state action next _ => preserved state action next

/-- The predicate holds in every state that the run passes through. -/
def Throughout (step : State → Action → Option State) (start : State) (actions : List Action)
    (holds : State → Prop) : Prop :=
  ∀ past rest state, actions = past ++ rest → run step start past = some state → holds state

/-- Every step of the run meets the condition, in the state it is taken from. -/
def EachStep (step : State → Action → Option State) (start : State) (actions : List Action)
    (condition : State → Action → Prop) : Prop :=
  ∀ past action rest state, actions = past ++ action :: rest → run step start past = some state →
    condition state action

/-- A check of every step that the run takes. -/
def everyStep (step : State → Action → Option State) (check : State → Action → Bool) (state : State) : List Action → Bool
  | [] => true
  | action :: rest => check state action &&
      match step state action with
      | none => true
      | some next => everyStep step check next rest

theorem eachStep_of_everyStep {start : State} {actions : List Action} {condition : State → Action → Prop}
    {check : State → Action → Bool} (sound : ∀ state action, check state action = true → condition state action)
    (checked : everyStep step check start actions = true) : EachStep step start actions condition := by
  induction actions generalizing start with
  | nil =>
      intro past action rest state split
      cases past <;> cases split
  | cons first others ih =>
      intro past action rest state split reached
      simp only [everyStep, Bool.and_eq_true] at checked
      cases past with
      | nil =>
          cases reached
          cases split
          exact sound _ _ checked.1
      | cons _ past =>
          cases split
          obtain ⟨next, taken, ran⟩ := run_cons_eq_some.mp reached
          have later := checked.2
          rw [taken] at later
          exact ih later past action rest state rfl ran

theorem EachStep.tail {start next : State} {action : Action} {rest : List Action} {condition : State → Action → Prop}
    (each : EachStep step start (action :: rest) condition) (taken : step start action = some next) :
    EachStep step next rest condition := by
  intro past other behind state split ran
  refine each (action :: past) other behind state ?_ (run_cons_eq_some.mpr ⟨next, taken, ran⟩)
  rw [split, List.cons_append]

/-- What each step preserves under its condition holds throughout. -/
theorem EachStep.throughout {start : State} {actions : List Action} {condition : State → Action → Prop}
    (each : EachStep step start actions condition) (invariant : State → Prop) (initial : invariant start)
    (preserved : ∀ state action next, invariant state → condition state action →
      step state action = some next → invariant next) : Throughout step start actions invariant := by
  intro past rest state split ran
  refine run_induction (fun before there => ∀ rest, actions = before ++ rest → invariant there) ran
    (fun _ _ => initial) ?_ rest split
  intro before there action next reached holds taken rest split
  rw [List.append_assoc, List.singleton_append] at split
  exact preserved there action next (holds _ split) (each before action rest there split reached) taken

/-- Two conditions that are the same under an invariant which the steps that meet the first preserve. -/
theorem EachStep.iff_of_invariant {start : State} {actions : List Action} {left right : State → Action → Prop}
    (invariant : State → Prop) (initial : invariant start)
    (same : ∀ state action, invariant state → (left state action ↔ right state action))
    (preserved : ∀ state action next, invariant state → left state action → step state action = some next →
      invariant next) : EachStep step start actions left ↔ EachStep step start actions right := by
  constructor
  · intro each past action rest state split ran
    have holds := each.throughout invariant initial preserved past (action :: rest) state split ran
    exact (same state action holds).mp (each past action rest state split ran)
  · intro each past action rest state split ran
    have holds := each.throughout invariant initial
      (fun state action next holds met taken => preserved state action next holds ((same state action holds).mpr met) taken)
      past (action :: rest) state split ran
    exact (same state action holds).mpr (each past action rest state split ran)

/-- A condition that every step between two good states meets. -/
theorem Throughout.eachStep {start final : State} {actions : List Action} {holds : State → Prop}
    {condition : State → Action → Prop} (throughout : Throughout step start actions holds)
    (ran : run step start actions = some final) (invariant : State → Prop) (initial : invariant start)
    (preserved : ∀ state action next, invariant state → step state action = some next → invariant next)
    (needed : ∀ state action next, invariant state → holds state → step state action = some next →
      holds next → condition state action) : EachStep step start actions condition := by
  intro past action rest state split reached
  rw [split, ← List.singleton_append, ← List.append_assoc] at ran
  obtain ⟨next, before, _⟩ := run_append_eq_some.mp ran
  obtain ⟨state', there, taken⟩ := run_concat_eq_some.mp before
  rw [reached] at there
  cases there
  refine needed state action next (run_invariant invariant reached initial preserved) ?_ taken ?_
  · exact throughout past (action :: rest) state split reached
  · refine throughout (past ++ [action]) rest next ?_ before
    rw [split, List.append_assoc, List.singleton_append]

end Transition
