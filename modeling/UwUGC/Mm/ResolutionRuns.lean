import UwUGC.Lib.Transition
import UwUGC.Mm.Compaction
import UwUGC.Mm.PageResolution

/-! Resolution behind any sequence of calls on a page table. Pages of any length may be opened,
those of no base page too: such a page lies at the cursor, and the next page takes its slot. -/

set_option autoImplicit false

namespace UwUGC.PageTable

inductive Call where
  | alloc (size : Nat)
  | allocPage (kind : FlexPageKind)
  | clear

def finalTable {Result : Type} : Except Panic (Result × PageTable) → Option PageTable
  | .ok (_, final) => some final
  | .error _ => none

/-- The table behind a call that returns. -/
def call (table : PageTable) : Call → Option PageTable
  | .alloc size => finalTable (table.alloc size)
  | .allocPage kind => finalTable (table.allocPage kind)
  | .clear => some table.clear

/-- The pages present tile the used prefix. -/
structure Tiled (table : PageTable) : Prop where
  arranged : table.Arranged
  covered : table.Covered

/-- What resolving an address in a table returns. -/
structure Resolves (table : PageTable) (addr : Nat) : Prop where
  used : table.baseAddr ≤ addr → addr < table.baseAddr + table.getUsedEndPage * basePageSize →
    ∃ idx page, table.resolveToPage addr = .ok (some idx) ∧ table.slot idx = some page ∧ page.range.Contains addr ∧
      ∀ other otherPage, table.slot other = some otherPage → otherPage.range.Contains addr → other = idx
  other : ¬ (table.baseAddr ≤ addr ∧ addr < table.baseAddr + table.getUsedEndPage * basePageSize) →
    table.resolveToPage addr = .ok none

variable {table final : PageTable} {kind : FlexPageKind} {size idx addr : Nat} {page : FlexPage}

theorem finalTable_eq_some {Result : Type} {outcome : Except Panic (Result × PageTable)} :
    finalTable outcome = some final ↔ ∃ result, outcome = .ok (result, final) := by
  cases outcome with
  | error panic => simp [finalTable]
  | ok returned =>
      obtain ⟨result, kept⟩ := returned
      simp [finalTable]

namespace Arranged

theorem unique (arranged : table.Arranged) {left right : Nat} {leftPage rightPage : FlexPage}
    (leftFound : table.slot left = some leftPage) (rightFound : table.slot right = some rightPage)
    (leftInside : leftPage.range.Contains addr) (rightInside : rightPage.range.Contains addr) : left = right := by
  obtain ⟨_, leftLower, leftUpper⟩ := base_page_of_contains arranged leftFound leftInside
  obtain ⟨_, rightLower, rightUpper⟩ := base_page_of_contains arranged rightFound rightInside
  rcases Nat.lt_trichotomy left right with before | same | behind
  · have separate := arranged.separate leftFound rightFound before
    omega
  · exact same
  · have separate := arranged.separate rightFound leftFound behind
    omega

end Arranged

namespace Tiled

theorem slotted (tiled : table.Tiled) : table.Slotted where
  length := tiled.arranged.length
  medium := tiled.arranged.medium

theorem of_empty (length : table.pageTable.length = table.nrPages) (empty : ∀ idx, table.slot idx = none)
    (cursor : table.currentBasePage = 0) (medium : table.mediumBufferPage = none) : table.Tiled where
  arranged := (Placed.of_empty length empty cursor medium).arranged
  covered := by
    intro k used
    rw [cursor] at used
    cases used

theorem allocates {buffer : Option Nat} {fits : FlexPage → Prop} {result : Option (Nat × Nat)} (tiled : table.Tiled)
    (positive : 0 < kind.nrPages) (step : Allocates kind buffer fits size table result final) : final.Tiled := by
  cases step with
  | full => exact tiled
  | bump _ found => exact ⟨tiled.arranged.bumped found, tiled.covered.bumped found⟩
  | fresh _ available =>
      have bound : table.currentBasePage < table.pageTable.length := by
        rw [tiled.arranged.length]
        omega
      exact ⟨tiled.arranged.opened bound available, tiled.covered.opened bound⟩

/-- A page of no base page needs a slot at the cursor too. -/
theorem allocPage {result : Option Nat} (tiled : table.Tiled) (returned : table.allocPage kind = .ok (result, final)) :
    final.Tiled := by
  unfold PageTable.allocPage at returned
  by_cases available : table.currentBasePage + kind.nrPages > table.nrPages
  · rw [if_pos available] at returned
    cases returned
    exact tiled
  · rw [if_neg available] at returned
    simp only [bind_eq_ok, FlexPage.new_eq_ok, Except.ok.injEq, Prod.mk.injEq] at returned
    obtain ⟨content, got, page, ⟨_, rfl⟩, _, rfl⟩ := returned
    have bound : table.currentBasePage < table.pageTable.length := by
      by_contra beyond
      simp [getPage, List.getElem?_eq_none (Nat.not_lt.mp beyond)] at got
    have opened : (table.opened kind 0).Arranged := tiled.arranged.opened bound (Nat.not_lt.mp available)
    have covered : (table.opened kind 0).Covered := tiled.covered.opened bound
    obtain ⟨length, bounded, start, within, separate, _⟩ := opened
    exact ⟨⟨length, bounded, start, within, separate, fun selected => tiled.arranged.medium_opened bound selected⟩, covered⟩

theorem call {request : Call} (tiled : table.Tiled) (taken : table.call request = some final) : final.Tiled := by
  cases request with
  | alloc size =>
      obtain ⟨result, returned⟩ := finalTable_eq_some.mp taken
      obtain ⟨_, step⟩ := (alloc_eq_ok tiled.slotted).mp returned
      exact tiled.allocates (Mm.Allocator.directClass_nrPages_pos size) step
  | allocPage kind =>
      obtain ⟨result, returned⟩ := finalTable_eq_some.mp taken
      exact tiled.allocPage returned
  | clear =>
      cases taken
      exact .of_empty (by simpa [PageTable.clear] using tiled.arranged.length) (Mm.slot_clear table) rfl rfl

theorem resolves (tiled : table.Tiled) (addr : Nat) : table.Resolves addr where
  used := by
    intro above below
    have index : (addr - table.baseAddr) / basePageSize < table.currentBasePage := by
      rw [Nat.div_lt_iff_lt_mul basePageSize_pos]
      simp only [getUsedEndPage] at below
      omega
    obtain ⟨idx, page, found, lower, upper⟩ := tiled.covered _ index
    have inside := contains_of_base_page tiled.arranged found above lower upper
    exact ⟨idx, page, resolveToPage_found tiled.arranged found inside, found, inside,
      fun other otherPage there contains => tiled.arranged.unique there found contains inside⟩
  other := by
    intro outside
    refine resolveToPage_none tiled.arranged ?_
    intro idx page found contains
    obtain ⟨above, _, upper⟩ := base_page_of_contains tiled.arranged found contains
    have within := tiled.arranged.within found
    refine outside ⟨above, ?_⟩
    have index := (Nat.div_lt_iff_lt_mul basePageSize_pos).mp (Nat.lt_of_lt_of_le upper within)
    simp only [getUsedEndPage]
    omega

end Tiled

/-- Behind every sequence of calls an address resolves to the page that it lies in. -/
theorem resolution_exact {baseAddr nrPages : Nat} {calls : List Call}
    (ran : Transition.run call (PageTable.new baseAddr nrPages) calls = some table) (addr : Nat) : table.Resolves addr := by
  have tiled : table.Tiled := by
    refine Transition.run_invariant Tiled ran ?_ fun _ _ _ tiled taken => tiled.call taken
    exact .of_empty (by simp [PageTable.new]) (Mm.Allocator.slot_new baseAddr nrPages) rfl rfl
  exact tiled.resolves addr

/-- A huge page and a page of no base page behind it. -/
theorem resolution_exact_huge : ∃ table,
    Transition.run call (PageTable.new 4096 8) [.allocPage (.huge 3), .allocPage (.huge 0)] = some table ∧
      table.Resolves 6000000 := by
  have returns : (Transition.run call (PageTable.new 4096 8) [.allocPage (.huge 3), .allocPage (.huge 0)]).isSome := by
    decide +kernel
  obtain ⟨table, ran⟩ := Option.isSome_iff_exists.mp returns
  exact ⟨table, ran, resolution_exact ran 6000000⟩

end UwUGC.PageTable
