import Mathlib.Logic.Function.Basic
import Mathlib.Data.List.Induction

/-! An object whose calls overlap in time, and yet take effect one at a time: each at some point between
its invocation and its return. What the callers of such an object see can be put in one order. -/

set_option autoImplicit false

namespace AtomicObject

inductive Event (Caller Op Result : Type) where
  | invoked (caller : Caller) (op : Op)
  | returned (caller : Caller) (op : Op) (result : Result)
deriving DecidableEq, Repr

inductive Status (Op Result : Type) where
  | idle
  | called (op : Op)
  | answered (op : Op) (result : Result)
deriving DecidableEq, Repr

/-- The object, and how far the call of each caller is. -/
structure Calls (Caller Op Result Object : Type) where
  object : Object
  status : Caller → Status Op Result

variable {Caller Op Result Object : Type}

def Status.answers : Status Op Result → List (Op × Result)
  | .idle => []
  | .called _ => []
  | .answered op result => [(op, result)]

def Status.waiting : Status Op Result → List Op
  | .idle => []
  | .called op => [op]
  | .answered _ _ => []

def Calls.new (object : Object) : Calls Caller Op Result Object where
  object := object
  status := fun _ => .idle

section Callers

variable [DecidableEq Caller]

def Calls.set (calls : Calls Caller Op Result Object) (caller : Caller) (status : Status Op Result) :
    Calls Caller Op Result Object :=
  { calls with status := Function.update calls.status caller status }

@[simp] theorem Calls.set_object (calls : Calls Caller Op Result Object) (caller : Caller)
    (status : Status Op Result) : (calls.set caller status).object = calls.object := rfl

@[simp] theorem Calls.set_status_self (calls : Calls Caller Op Result Object) (caller : Caller)
    (status : Status Op Result) : (calls.set caller status).status caller = status := by
  simp only [Calls.set, Function.update_self]

theorem Calls.set_status_of_ne (calls : Calls Caller Op Result Object) {caller other : Caller}
    (different : other ≠ caller) (status : Status Op Result) : (calls.set caller status).status other = calls.status other := by
  simp only [Calls.set, Function.update_of_ne different]

@[simp] theorem Calls.set_set (calls : Calls Caller Op Result Object) (caller : Caller)
    (early late : Status Op Result) : (calls.set caller early).set caller late = calls.set caller late := by
  simp only [Calls.set, Function.update_idem]

def invokedBy (caller : Caller) (events : List (Event Caller Op Result)) : List Op :=
  events.filterMap fun event =>
    match event with
    | .invoked other op => if other = caller then some op else none
    | .returned _ _ _ => none

def returnedTo (caller : Caller) (events : List (Event Caller Op Result)) : List (Op × Result) :=
  events.filterMap fun event =>
    match event with
    | .invoked _ _ => none
    | .returned other op result => if other = caller then some (op, result) else none

def servedTo (caller : Caller) (served : List (Caller × Op × Result)) : List (Op × Result) :=
  served.filterMap fun call => if call.1 = caller then some call.2 else none

theorem invokedBy_invoked (caller other : Caller) (op : Op) (events : List (Event Caller Op Result)) :
    invokedBy caller (events ++ [.invoked other op]) =
      invokedBy caller events ++ if other = caller then [op] else [] := by
  by_cases same : other = caller <;> simp [invokedBy, same]

theorem invokedBy_returned (caller other : Caller) (op : Op) (result : Result)
    (events : List (Event Caller Op Result)) : invokedBy caller (events ++ [.returned other op result]) = invokedBy caller events := by
  simp [invokedBy]

theorem returnedTo_invoked (caller other : Caller) (op : Op) (events : List (Event Caller Op Result)) :
    returnedTo caller (events ++ [.invoked other op]) = returnedTo caller events := by
  simp [returnedTo]

theorem returnedTo_returned (caller other : Caller) (op : Op) (result : Result)
    (events : List (Event Caller Op Result)) : returnedTo caller (events ++ [.returned other op result]) =
      returnedTo caller events ++ if other = caller then [(op, result)] else [] := by
  by_cases same : other = caller <;> simp [returnedTo, same]

theorem servedTo_concat (caller other : Caller) (op : Op) (result : Result) (served : List (Caller × Op × Result)) :
    servedTo caller (served ++ [(other, op, result)]) =
      servedTo caller served ++ if other = caller then [(op, result)] else [] := by
  by_cases same : other = caller <;> simp [servedTo, same]

end Callers

/-- Calls that are served one after the other. -/
inductive Serves (effect : Object → Caller → Op → Result → Object → Prop) (start : Object) :
    List (Caller × Op × Result) → Object → Prop where
  | nil : Serves effect start [] start
  | concat {served : List (Caller × Op × Result)} {object next : Object} {caller : Caller} {op : Op} {result : Result}
      (before : Serves effect start served object) (taken : effect object caller op result next) :
      Serves effect start (served ++ [(caller, op, result)]) next

section Histories

variable [DecidableEq Caller]

/-- What the callers see while each call takes its effect at once, at a point of its own. -/
inductive History (effect : Object → Caller → Op → Result → Object → Prop) (start : Calls Caller Op Result Object) :
    List (Event Caller Op Result) → Calls Caller Op Result Object → Prop where
  | nil : History effect start [] start
  | invoke {events : List (Event Caller Op Result)} {calls : Calls Caller Op Result Object} {caller : Caller} {op : Op}
      (before : History effect start events calls) (idle : calls.status caller = .idle) :
      History effect start (events ++ [.invoked caller op]) (calls.set caller (.called op))
  | answer {events : List (Event Caller Op Result)} {calls : Calls Caller Op Result Object} {caller : Caller} {op : Op}
      {result : Result} {object : Object} (before : History effect start events calls)
      (called : calls.status caller = .called op) (taken : effect calls.object caller op result object) :
      History effect start events ({ calls with object }.set caller (.answered op result))
  | give {events : List (Event Caller Op Result)} {calls : Calls Caller Op Result Object} {caller : Caller} {op : Op}
      {result : Result} (before : History effect start events calls)
      (answered : calls.status caller = .answered op result) :
      History effect start (events ++ [.returned caller op result]) (calls.set caller .idle)

/-- A call that takes its effect just before it returns. -/
theorem History.serve {effect : Object → Caller → Op → Result → Object → Prop}
    {start calls : Calls Caller Op Result Object} {events : List (Event Caller Op Result)} {caller : Caller} {op : Op} {result : Result} {object : Object}
    (before : History effect start events calls) (called : calls.status caller = .called op)
    (taken : effect calls.object caller op result object) :
    History effect start (events ++ [.returned caller op result]) ({ calls with object }.set caller .idle) := by
  have history := History.give (before.answer called taken) (Calls.set_status_self _ caller (.answered op result))
  rwa [Calls.set_set] at history

/-- The calls of a history in one order: the object serves them in it one after the other, each caller
gets the results of its own, and at any time the calls that have returned lie before some place in the
order, and only calls that have been invoked do. -/
structure Orders (effect : Object → Caller → Op → Result → Object → Prop) (start : Object)
    (events : List (Event Caller Op Result)) (calls : Calls Caller Op Result Object)
    (served : List (Caller × Op × Result)) : Prop where
  serves : Serves effect start served calls.object
  answers : ∀ caller, servedTo caller served = returnedTo caller events ++ (calls.status caller).answers
  cuts : ∀ past rest, events = past ++ rest → ∃ before behind, served = before ++ behind ∧ ∀ caller,
    returnedTo caller past <+: servedTo caller before ∧ (servedTo caller before).map Prod.fst <+: invokedBy caller past

variable {effect : Object → Caller → Op → Result → Object → Prop} {start : Object}
  {events : List (Event Caller Op Result)} {calls : Calls Caller Op Result Object}

/-- A history that goes on by one event is cut where it was, or at its end. -/
theorem cuts_concat {event : Event Caller Op Result} {served : List (Caller × Op × Result)}
    (cuts : ∀ past rest, events = past ++ rest → ∃ before behind, served = before ++ behind ∧ ∀ caller,
      returnedTo caller past <+: servedTo caller before ∧
        (servedTo caller before).map Prod.fst <+: invokedBy caller past)
    (last : ∀ caller, returnedTo caller (events ++ [event]) <+: servedTo caller served ∧
      (servedTo caller served).map Prod.fst <+: invokedBy caller (events ++ [event])) :
    ∀ past rest, events ++ [event] = past ++ rest → ∃ before behind, served = before ++ behind ∧ ∀ caller,
      returnedTo caller past <+: servedTo caller before ∧
        (servedTo caller before).map Prod.fst <+: invokedBy caller past := by
  intro past rest split
  rcases List.eq_nil_or_concat rest with rfl | ⟨rest, other, rfl⟩
  · rw [List.append_nil] at split
    exact ⟨served, [], (List.append_nil _).symm, split ▸ last⟩
  · rw [List.concat_eq_append, ← List.append_assoc] at split
    exact cuts past rest (List.append_inj' split rfl).1

/-- An order still serves when one event is added that no call takes effect at. -/
theorem Orders.concat {event : Event Caller Op Result} {served : List (Caller × Op × Result)}
    {later : Calls Caller Op Result Object} (orders : Orders effect start events calls served)
    (object : later.object = calls.object)
    (answers : ∀ caller,
      servedTo caller served = returnedTo caller (events ++ [event]) ++ (later.status caller).answers)
    (invoked : ∀ caller, invokedBy caller (events ++ [event]) =
      (servedTo caller served).map Prod.fst ++ (later.status caller).waiting) :
    Orders effect start (events ++ [event]) later served := by
  refine ⟨object ▸ orders.serves, answers, cuts_concat orders.cuts fun caller => ⟨?_, ?_⟩⟩
  · rw [answers caller]
    exact List.prefix_append _ _
  · rw [invoked caller]
    exact List.prefix_append _ _

/-- Every history has such an order. -/
theorem History.orders (history : History effect (.new start) events calls) :
    ∃ served, Orders effect start events calls served ∧
      ∀ caller, invokedBy caller events = (servedTo caller served).map Prod.fst ++ (calls.status caller).waiting := by
  induction history with
  | nil =>
      refine ⟨[], ⟨.nil, fun _ => rfl, ?_⟩, fun _ => rfl⟩
      intro past rest split
      obtain ⟨rfl, _⟩ := List.append_eq_nil_iff.mp split.symm
      exact ⟨[], [], rfl, fun _ => ⟨List.prefix_rfl, List.prefix_rfl⟩⟩
  | @invoke events calls caller op before idle ih =>
      obtain ⟨served, orders, invoked⟩ := ih
      have invokedNow (other : Caller) : invokedBy other (events ++ [.invoked caller op]) =
          (servedTo other served).map Prod.fst ++ ((calls.set caller (.called op)).status other).waiting := by
        rw [invokedBy_invoked, invoked other]
        by_cases same : other = caller
        · subst same
          simp [Calls.set, idle, Status.waiting]
        · simp [Calls.set, same, Ne.symm same]
      refine ⟨served, orders.concat rfl (fun other => ?_) invokedNow, invokedNow⟩
      rw [returnedTo_invoked, orders.answers other]
      by_cases same : other = caller
      · subst same
        simp [Calls.set, idle, Status.answers]
      · simp [Calls.set, same]
  | @answer events calls caller op result object before called taken ih =>
      obtain ⟨served, ⟨serves, answers, cuts⟩, invoked⟩ := ih
      refine ⟨served ++ [(caller, op, result)], ⟨serves.concat taken, ?_, ?_⟩, ?_⟩
      · intro other
        rw [servedTo_concat, answers other]
        by_cases same : other = caller
        · subst same
          simp [Calls.set, called, Status.answers]
        · simp [Calls.set, same, Ne.symm same]
      · intro past rest split
        obtain ⟨early, late, rfl, both⟩ := cuts past rest split
        exact ⟨early, late ++ [(caller, op, result)], List.append_assoc _ _ _, both⟩
      · intro other
        rw [servedTo_concat, invoked other]
        by_cases same : other = caller
        · subst same
          simp [Calls.set, called, Status.waiting]
        · simp [Calls.set, same, Ne.symm same]
  | @give events calls caller op result before answered ih =>
      obtain ⟨served, orders, invoked⟩ := ih
      have invokedNow (other : Caller) : invokedBy other (events ++ [.returned caller op result]) =
          (servedTo other served).map Prod.fst ++ ((calls.set caller .idle).status other).waiting := by
        rw [invokedBy_returned, invoked other]
        by_cases same : other = caller
        · subst same
          simp [Calls.set, answered, Status.waiting]
        · simp [Calls.set, same]
      refine ⟨served, orders.concat rfl (fun other => ?_) invokedNow, invokedNow⟩
      rw [returnedTo_returned, orders.answers other]
      by_cases same : other = caller
      · subst same
        simp [Calls.set, answered, Status.answers]
      · simp [Calls.set, same, Ne.symm same]

end Histories

/-- What each call preserves holds of what they leave. -/
theorem Serves.invariant {effect : Object → Caller → Op → Result → Object → Prop} {start final : Object}
    {served : List (Caller × Op × Result)} (serves : Serves effect start served final)
    (motive : List (Caller × Op × Result) → Object → Prop) (initial : motive [] start)
    (preserved : ∀ served object caller op result next, motive served object → effect object caller op result next →
      motive (served ++ [(caller, op, result)]) next) : motive served final := by
  induction serves with
  | nil => exact initial
  | concat _ taken ih => exact preserved _ _ _ _ _ _ ih taken

end AtomicObject
