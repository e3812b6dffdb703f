import Mathlib.Tactic.Common

/-! Iterators that take several turns of a loop for one item. A turn ends the iteration, or
goes on with an item to return or without one. -/

set_option autoImplicit false

namespace Iteration

variable {σ τ Item : Type} {turn : σ → Option (Option Item × σ)} {state next : σ} {items : List Item} {turns : Nat}

/-- The iteration returns these items one after the other, and ends after so many turns. -/
inductive Iterates (turn : σ → Option (Option Item × σ)) : Nat → σ → List Item → Prop where
  | done {state : σ} (ended : turn state = none) : Iterates turn 0 state []
  | item {state next : σ} {turns : Nat} {item : Item} {items : List Item}
      (turned : turn state = some (some item, next)) (rest : Iterates turn turns next items) :
      Iterates turn (turns + 1) state (item :: items)
  | silent {state next : σ} {turns : Nat} {items : List Item}
      (turned : turn state = some (none, next)) (rest : Iterates turn turns next items) :
      Iterates turn (turns + 1) state items

theorem Iterates.unique {otherTurns : Nat} {otherItems : List Item} (iterates : Iterates turn turns state items)
    (other : Iterates turn otherTurns state otherItems) : otherTurns = turns ∧ otherItems = items := by
  induction iterates generalizing otherTurns otherItems with
  | done ended =>
      cases other with
      | done => exact ⟨rfl, rfl⟩
      | item turned => simp [ended] at turned
      | silent turned => simp [ended] at turned
  | item turned _ ih =>
      cases other with
      | done ended => simp [ended] at turned
      | item otherTurned rest =>
          cases turned.symm.trans otherTurned
          obtain ⟨sameTurns, sameItems⟩ := ih rest
          rw [sameTurns, sameItems]
          exact ⟨rfl, rfl⟩
      | silent otherTurned => cases turned.symm.trans otherTurned
  | silent turned _ ih =>
      cases other with
      | done ended => simp [ended] at turned
      | item otherTurned => cases turned.symm.trans otherTurned
      | silent otherTurned rest =>
          cases turned.symm.trans otherTurned
          obtain ⟨sameTurns, sameItems⟩ := ih rest
          rw [sameTurns]
          exact ⟨rfl, sameItems⟩

/-- An iterator inside another one that turns as it does. -/
theorem Iterates.embed {outer : τ → Option (Option Item × τ)} {inside : σ → τ}
    (follows : ∀ state, outer (inside state) = (turn state).map fun turned => (turned.1, inside turned.2))
    (iterates : Iterates turn turns state items) : Iterates outer turns (inside state) items := by
  induction iterates with
  | done ended =>
      apply Iterates.done
      rw [follows, ended]
      rfl
  | item turned _ ih =>
      refine .item ?_ ih
      rw [follows, turned]
      rfl
  | silent turned _ ih =>
      refine .silent ?_ ih
      rw [follows, turned]
      rfl

end Iteration
