import Mathlib.Data.List.Pairwise

/-! Half-open ranges of naturals by start and length. -/

set_option autoImplicit false

structure Span where
  start : Nat
  length : Nat
deriving DecidableEq, Repr

namespace Span

def stop (span : Span) : Nat := span.start + span.length

def Contains (span : Span) (point : Nat) : Prop := span.start ≤ point ∧ point < span.stop

/-- One span ends before the other starts. -/
def Separate (left right : Span) : Prop := left.stop ≤ right.start ∨ right.stop ≤ left.start

def Within (inner outer : Span) : Prop := outer.start ≤ inner.start ∧ inner.stop ≤ outer.stop

instance (span : Span) (point : Nat) : Decidable (span.Contains point) :=
  inferInstanceAs (Decidable (_ ∧ _))

instance (left right : Span) : Decidable (left.Separate right) :=
  inferInstanceAs (Decidable (_ ∨ _))

instance (inner outer : Span) : Decidable (inner.Within outer) :=
  inferInstanceAs (Decidable (_ ∧ _))

theorem Separate.symm {left right : Span} (separate : left.Separate right) : right.Separate left :=
  Or.symm separate

theorem Within.refl (span : Span) : span.Within span := ⟨Nat.le_refl _, Nat.le_refl _⟩

theorem Within.trans {inner middle outer : Span} (left : inner.Within middle) (right : middle.Within outer) :
    inner.Within outer :=
  ⟨Nat.le_trans right.1 left.1, Nat.le_trans left.2 right.2⟩

theorem Within.contains {inner outer : Span} (within : inner.Within outer) {point : Nat}
    (inside : inner.Contains point) : outer.Contains point :=
  ⟨Nat.le_trans within.1 inside.1, Nat.lt_of_lt_of_le inside.2 within.2⟩

theorem Separate.within {left right innerLeft innerRight : Span} (separate : left.Separate right)
    (leftWithin : innerLeft.Within left) (rightWithin : innerRight.Within right) :
    innerLeft.Separate innerRight := by
  obtain ⟨leftStart, leftStop⟩ := leftWithin
  obtain ⟨rightStart, rightStop⟩ := rightWithin
  rcases separate with before | behind
  · exact .inl (by omega)
  · exact .inr (by omega)

theorem Separate.shift {base left leftLength right rightLength : Nat} :
    (Span.mk (base + left) leftLength).Separate ⟨base + right, rightLength⟩ ↔
      (Span.mk left leftLength).Separate ⟨right, rightLength⟩ := by
  simp only [Separate, stop]
  omega

theorem Separate.not_contains {left right : Span} (separate : left.Separate right) {point : Nat}
    (inside : left.Contains point) : ¬ right.Contains point := by
  obtain ⟨lower, upper⟩ := inside
  rintro ⟨lower', upper'⟩
  rcases separate with before | behind <;> omega

end Span
