import UwUGC.Lib.Span
import UwUGC.Mm.PageTableProperties

/-! The memory of the pages of a table: what lies in the used part of a page stays
there, and is separate from whatever is allocated later. -/

set_option autoImplicit false

namespace UwUGC

def FlexPage.range (page : FlexPage) : Span := ⟨page.start, page.size⟩

def FlexPage.usedRange (page : FlexPage) : Span := ⟨page.start, page.used⟩

namespace PageTable

theorem pages_separate {table : PageTable} (placed : table.Placed) {left right : Nat}
    {leftPage rightPage : FlexPage} (leftFound : table.slot left = some leftPage)
    (rightFound : table.slot right = some rightPage) (different : left ≠ right) :
    leftPage.range.Separate rightPage.range := by
  have leftStart := placed.start leftFound
  have rightStart := placed.start rightFound
  have ordered {a b : Nat} {p : FlexPage} (first : a + p.nrPages ≤ b) :
      a * basePageSize + p.nrPages * basePageSize ≤ b * basePageSize := by
    rw [← Nat.add_mul]
    exact Nat.mul_le_mul_right _ first
  rcases Nat.lt_or_gt_of_ne different with before | behind
  · have := ordered (placed.separate leftFound rightFound before)
    refine .inl ?_
    simp only [Span.stop, FlexPage.range, leftStart, rightStart, FlexPage.size_of_nrPages]
    omega
  · have := ordered (placed.separate rightFound leftFound behind)
    refine .inr ?_
    simp only [Span.stop, FlexPage.range, leftStart, rightStart, FlexPage.size_of_nrPages]
    omega

theorem usedRange_within {table : PageTable} (placed : table.Placed) {idx : Nat} {page : FlexPage}
    (found : table.slot idx = some page) : page.usedRange.Within page.range :=
  ⟨Nat.le_refl _, Nat.add_le_add_left (placed.used found) _⟩

theorem page_within {table : PageTable} (placed : table.Placed) {idx : Nat} {page : FlexPage}
    (found : table.slot idx = some page) :
    page.range.Within ⟨table.baseAddr, table.nrPages * basePageSize⟩ := by
  have start := placed.start found
  have within : (idx + page.nrPages) * basePageSize ≤ table.nrPages * basePageSize :=
    Nat.mul_le_mul_right _ (Nat.le_trans (placed.within found) placed.bounded)
  rw [Nat.add_mul] at within
  constructor
  · simp only [FlexPage.range, start]
    omega
  · simp only [Span.stop, FlexPage.range, start, FlexPage.size_of_nrPages]
    omega

/-- The span lies in the used part of a page. -/
def Holds (table : PageTable) (span : Span) : Prop :=
  ∃ idx page, table.slot idx = some page ∧ span.Within page.usedRange

variable {kind : FlexPageKind} {buffer : Option Nat} {fits : FlexPage → Prop} {size ptr idx : Nat}
  {table final : PageTable} {result : Option (Nat × Nat)} {span : Span}

theorem Allocates.usedRange_keeps (step : Allocates kind buffer fits size table result final)
    (placed : table.Placed) (positive : 0 < kind.nrPages) {idx : Nat} {page : FlexPage}
    (found : table.slot idx = some page) :
    ∃ later, final.slot idx = some later ∧ page.usedRange.Within later.usedRange := by
  obtain ⟨later, there, _, start, grown⟩ := step.keeps placed.indexed positive found
  refine ⟨later, there, Nat.le_of_eq start, ?_⟩
  simp only [Span.stop, FlexPage.usedRange, FlexPage.used, start]
  omega

theorem Holds.keeps (held : table.Holds span) (step : Allocates kind buffer fits size table result final)
    (placed : table.Placed) (positive : 0 < kind.nrPages) : final.Holds span := by
  obtain ⟨idx, page, found, within⟩ := held
  obtain ⟨later, there, grown⟩ := step.usedRange_keeps placed positive found
  exact ⟨idx, later, there, within.trans grown⟩

theorem Allocates.served (step : Allocates kind buffer fits size table (some (ptr, idx)) final)
    (placed : table.Placed) (positive : 0 < kind.nrPages) :
    ∃ page, final.slot idx = some page ∧ (Span.mk ptr size).Within page.usedRange := by
  obtain ⟨page, found, bump, start, _⟩ := step.serves placed positive
  exact ⟨page, found, start, Nat.le_of_eq bump.symm⟩

theorem Allocates.served_apart (step : Allocates kind buffer fits size table (some (ptr, idx)) final)
    (placed : table.Placed) (positive : 0 < kind.nrPages) (held : table.Holds span) :
    span.Separate ⟨ptr, size⟩ := by
  obtain ⟨oldIdx, oldPage, oldFound, within⟩ := held
  obtain ⟨page, found, _, _, fresh⟩ := step.serves placed positive
  by_cases same : oldIdx = idx
  · -- In the same page what was held ends at the old bump pointer.
    subst same
    refine .inl (Nat.le_trans within.2 ?_)
    exact Nat.le_of_eq (fresh oldFound)
  · have finalPlaced := step.placed placed positive
    obtain ⟨later, laterFound, grown⟩ := step.usedRange_keeps placed positive oldFound
    obtain ⟨serving, servingFound, inside⟩ := step.served placed positive
    exact (pages_separate finalPlaced laterFound servingFound same).within
      ((within.trans grown).trans (usedRange_within finalPlaced laterFound))
      (inside.trans (usedRange_within finalPlaced servingFound))

end PageTable

end UwUGC
