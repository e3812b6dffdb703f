import Mathlib.Algebra.Group.Nat.Defs

/-! The ways a modelled function can panic. A function of the source that may
panic returns `Except Panic`; its other results are returned as values. -/

set_option autoImplicit false

namespace UwUGC

/-- `unwrapNone` is an `unwrap` of `None`; `message` is a `panic!`, an `assert!`
or an `expect`, with its text. -/
inductive Panic where
  | unwrapNone
  | indexOutOfBounds
  | message (text : String)
deriving DecidableEq, Repr

def unwrap {α : Type} : Option α → Except Panic α
  | some value => .ok value
  | none => .error .unwrapNone

def expect {α : Type} (text : String) : Option α → Except Panic α
  | some value => .ok value
  | none => .error (.message text)

def assert (condition : Bool) (text : String) : Except Panic Unit :=
  if condition then .ok () else .error (.message text)

/-- `-` on `usize` with its overflow check. -/
def checkedSub (left right : Nat) : Except Panic Nat :=
  if right ≤ left then .ok (left - right) else .error (.message "attempt to subtract with overflow")

/-- `+` and `*` on `usize` with their overflow checks. -/
def checkedAdd (left right : Nat) : Except Panic Nat :=
  if left + right < 2 ^ 64 then .ok (left + right) else .error (.message "attempt to add with overflow")

def checkedMul (left right : Nat) : Except Panic Nat :=
  if left * right < 2 ^ 64 then .ok (left * right) else .error (.message "attempt to multiply with overflow")

/-- How a build compiles the arithmetic of `usize`: a debug build checks it, in a release build
it wraps. -/
inductive Build where
  | debug
  | release
deriving DecidableEq, Repr

namespace Build

def add : Build → Nat → Nat → Except Panic Nat
  | debug, left, right => checkedAdd left right
  | release, left, right => .ok ((left + right) % 2 ^ 64)

def mul : Build → Nat → Nat → Except Panic Nat
  | debug, left, right => checkedMul left right
  | release, left, right => .ok (left * right % 2 ^ 64)

def sub : Build → Nat → Nat → Except Panic Nat
  | debug, left, right => checkedSub left right
  | release, left, right => .ok (if right ≤ left then left - right else left + 2 ^ 64 - right)

theorem sub_of_le {left right : Nat} (build : Build) (le : right ≤ left) : build.sub left right = .ok (left - right) := by
  cases build with
  | debug => exact if_pos le
  | release => rw [sub, if_pos le]

end Build

@[simp] theorem unwrap_some {α : Type} (value : α) : unwrap (some value) = .ok value := rfl

@[simp] theorem unwrap_eq_ok {α : Type} {source : Option α} {value : α} :
    unwrap source = .ok value ↔ source = some value := by
  cases source <;> simp [unwrap]

@[simp] theorem expect_some {α : Type} (text : String) (value : α) :
    expect text (some value) = .ok value := rfl

@[simp] theorem expect_eq_ok {α : Type} {text : String} {source : Option α} {value : α} :
    expect text source = .ok value ↔ source = some value := by
  cases source <;> simp [expect]

@[simp] theorem assert_eq_ok {condition : Bool} {text : String} {value : Unit} :
    assert condition text = .ok value ↔ condition = true := by
  cases condition <;> simp [assert]

theorem checkedSub_eq_ok {left right difference : Nat} :
    checkedSub left right = .ok difference ↔ right ≤ left ∧ left - right = difference := by
  by_cases below : right ≤ left <;> simp [checkedSub, below]

theorem checkedAdd_eq_ok {left right sum : Nat} :
    checkedAdd left right = .ok sum ↔ left + right < 2 ^ 64 ∧ left + right = sum := by
  unfold checkedAdd
  by_cases below : left + right < 2 ^ 64
  · rw [if_pos below, Except.ok.injEq, and_iff_right below]
  · rw [if_neg below]
    exact iff_of_false nofun fun both => below both.1

theorem checkedMul_eq_ok {left right product : Nat} :
    checkedMul left right = .ok product ↔ left * right < 2 ^ 64 ∧ left * right = product := by
  unfold checkedMul
  by_cases below : left * right < 2 ^ 64
  · rw [if_pos below, Except.ok.injEq, and_iff_right below]
  · rw [if_neg below]
    exact iff_of_false nofun fun both => below both.1

/-- A sequence of two computations returns exactly when both do. -/
theorem bind_eq_ok {α β : Type} {computation : Except Panic α} {next : α → Except Panic β} {result : β} :
    computation >>= next = .ok result ↔ ∃ value, computation = .ok value ∧ next value = .ok result := by
  cases computation with
  | error panic => simp [bind, Except.bind]
  | ok value => simp [bind, Except.bind]

/-- A computation returns what its mapped result tells. -/
theorem map_eq_ok {α β : Type} {computation : Except Panic α} {view : α → β} {seen : β} :
    computation.map view = .ok seen ↔ ∃ value, computation = .ok value ∧ view value = seen := by
  cases computation <;> simp [Except.map]

/-- The `?` operator on a call that returns an `Option` and the state it leaves
behind: a `None` returns at once with the state as it is. -/
def tryThen {σ α β : Type} (first : Except Panic (Option α × σ))
    (next : α → σ → Except Panic (Option β × σ)) : Except Panic (Option β × σ) :=
  match first with
  | .ok (some value, state) => next value state
  | .ok (none, state) => .ok (none, state)
  | .error panic => .error panic

@[simp] theorem tryThen_some {σ α β : Type} (value : α) (state : σ)
    (next : α → σ → Except Panic (Option β × σ)) :
    tryThen (.ok (some value, state)) next = next value state := rfl

@[simp] theorem tryThen_none {σ α β : Type} (state : σ) (next : α → σ → Except Panic (Option β × σ)) :
    tryThen (.ok (none, state)) next = .ok (none, state) := rfl

theorem tryThen_eq_ok {σ α β : Type} {first : Except Panic (Option α × σ)}
    {next : α → σ → Except Panic (Option β × σ)} {result : Option β} {final : σ} :
    tryThen first next = .ok (result, final) ↔
      (first = .ok (none, final) ∧ result = none) ∨
      ∃ value state, first = .ok (some value, state) ∧ next value state = .ok (result, final) := by
  cases first with
  | error panic => simp [tryThen]
  | ok outcome =>
      obtain ⟨value, state⟩ := outcome
      cases value with
      | none =>
          constructor
          · intro returned
            cases returned
            exact .inl ⟨rfl, rfl⟩
          · rintro (⟨same, rfl⟩ | ⟨_, _, same, _⟩)
            · cases same
              rfl
            · cases same
      | some value =>
          constructor
          · intro returned
            exact .inr ⟨value, state, rfl, returned⟩
          · rintro (⟨same, _⟩ | ⟨_, _, same, returned⟩)
            · cases same
            · cases same
              exact returned

end UwUGC
