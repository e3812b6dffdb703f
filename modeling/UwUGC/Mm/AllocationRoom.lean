import UwUGC.Mm.TableRuns

/-! When an allocation takes a new page, and when it fails. The room test of the local page is
strict: it sends an exact fit away. -/

set_option autoImplicit false

namespace UwUGC.Mm.Context

open PageTable

variable {context after : Context} {table final : PageTable} {size : Nat} {result : Option (Nat × Nat)}

/-- The page that serves the size is absent or too full. -/
def Lacks (context : Context) (table : PageTable) (size : Nat) : Prop :=
  ∀ idx page, context.buffer table size = some idx → table.slot idx = some page → page.free < size

/-- A call fails or opens a page for want of room only. -/
structure Frugal (context : Context) (table : PageTable) (size : Nat) : Prop where
  none : ∀ after final, context.allocFromPageTable table size = .ok (none, after, final) →
    context.Lacks table size ∧ table.nrPages - table.currentBasePage < (sizeClass size).nrPages
  fresh : ∀ result after final, context.allocFromPageTable table size = .ok (result, after, final) →
    table.currentBasePage < final.currentBasePage → context.Lacks table size

/-- The local page has just the room that is asked for. -/
def FitsExactly (context : Context) (table : PageTable) (size : Nat) : Prop :=
  size < FlexPageKind.small.maxObjectSize ∧
    ∃ idx page, context.localBufferPage = some idx ∧ table.slot idx = some page ∧ page.free = size

theorem buffer_small (small : size < FlexPageKind.small.maxObjectSize) :
    context.buffer table size = context.localBufferPage := if_pos small

/-- Without an exact fit the room test sends only those away that have no room. -/
theorem lacks_of_noRoom (inexact : ¬ context.FitsExactly table size)
    (noRoom : ∀ {idx page}, context.buffer table size = some idx → table.slot idx = some page → ¬ hasRoom size page) :
    context.Lacks table size := by
  intro idx page selected found
  have refused := noRoom selected found
  by_cases small : size < FlexPageKind.small.maxObjectSize
  · rw [hasRoom, if_pos small, Nat.not_lt] at refused
    rw [buffer_small small] at selected
    refine Nat.lt_of_le_of_ne refused ?_
    intro same
    exact inexact ⟨small, idx, page, selected, found, same⟩
  · rw [hasRoom, if_neg small, Nat.not_le] at refused
    exact refused

theorem frugal_of_inexact (indexed : table.Indexed) (inexact : ¬ context.FitsExactly table size) :
    context.Frugal table size where
  none := by
    intro after final returned
    cases (allocates_of_returned indexed returned).2 with
    | full noRoom exhausted =>
        refine ⟨lacks_of_noRoom inexact noRoom, ?_⟩
        have positive := sizeClass_nrPages_pos size
        omega
  fresh := by
    intro result after final returned opened
    cases (allocates_of_returned indexed returned).2 with
    | full => exact absurd opened (Nat.lt_irrefl _)
    | bump => exact absurd opened (Nat.lt_irrefl _)
    | fresh noRoom => exact lacks_of_noRoom inexact noRoom

/-- An exact fit is sent away: the call opens a page, or fails when there is none. -/
theorem not_frugal_of_exact (indexed : table.Indexed) (multiple : size % 8 = 0)
    (exact_ : context.FitsExactly table size) : ¬ context.Frugal table size := by
  obtain ⟨small, idx, page, selected, found, free⟩ := exact_
  intro frugal
  have present (_ : size < FlexPageKind.small.maxObjectSize) : context.Present table := by
    intro other cached
    rw [selected] at cached
    cases cached
    exact ⟨page, found⟩
  have buffer : context.buffer table size = some idx := (buffer_small small).trans selected
  have noRoom {other : Nat} {there : FlexPage} (chosen : context.buffer table size = some other)
      (at_other : table.slot other = some there) : ¬ hasRoom size there := by
    rw [buffer] at chosen
    cases chosen
    rw [found] at at_other
    cases at_other
    rw [hasRoom, if_pos small, free]
    exact Nat.lt_irrefl _
  have roomy : ¬ context.Lacks table size := by
    intro lacks
    have less := lacks idx page buffer found
    omega
  have below := indexed.below found
  have nonnull : table.baseAddr + table.currentBasePage * basePageSize ≠ 0 := by
    have positive : 0 < table.currentBasePage * basePageSize := Nat.mul_pos (by omega) basePageSize_pos
    omega
  by_cases available : table.currentBasePage + (sizeClass size).nrPages ≤ table.nrPages
  · have step := Allocates.fresh noRoom available nonnull (sizeClass_free size)
    have returned := (allocFromPageTable_present indexed present).mpr ⟨multiple, step, rfl⟩
    refine roomy (frugal.fresh _ _ _ returned ?_)
    have positive := sizeClass_nrPages_pos size
    simp only [opened]
    omega
  · have step : Allocates (sizeClass size) (context.buffer table size) (hasRoom size) size table none table :=
      .full noRoom (Nat.lt_of_not_le available)
    have returned := (allocFromPageTable_present indexed present).mpr ⟨multiple, step, rfl⟩
    exact roomy (frugal.none _ _ returned).1

/-- In every table that a run leads to, and for every context, a call fails or opens a page for
want of room only, exactly when the size does not fit the local page exactly. -/
theorem frugal_iff {baseAddr nrPages : Nat} {actions : List Action}
    (ran : Transition.run step (PageTable.new baseAddr nrPages) actions = some table) (context : Context)
    (multiple : size % 8 = 0) : context.Frugal table size ↔ ¬ context.FitsExactly table size := by
  have indexed := run_indexed ran
  constructor
  · intro frugal exact_
    exact not_frugal_of_exact indexed multiple exact_ frugal
  · exact frugal_of_inexact indexed

/-- A table of one page whose context has taken all of it but 24 bytes. -/
def nearlyFull : List Action :=
  [.alloc .new 262136, .alloc ⟨some 0⟩ 262136, .alloc ⟨some 0⟩ 262136, .alloc ⟨some 0⟩ 262136, .alloc ⟨some 0⟩ 262136,
    .alloc ⟨some 0⟩ 262136, .alloc ⟨some 0⟩ 262136, .alloc ⟨some 0⟩ 262136, .alloc ⟨some 0⟩ 40]

theorem nearlyFull_table :
    Transition.run step (PageTable.new 4194304 1) nearlyFull =
      some ⟨4194304, 1, 1, [some ⟨.small, 4194304, 2097128⟩], none⟩ := by
  decide +kernel

/-- An object of the 24 bytes that are left is refused. -/
theorem exact_fit_refused :
    ∃ table, Transition.run step (PageTable.new 4194304 1) nearlyFull = some table ∧
      allocFromPageTable ⟨some 0⟩ table 24 = .ok (none, ⟨some 0⟩, table) ∧
      (table.slot 0).map FlexPage.free = some 24 ∧ ¬ Frugal ⟨some 0⟩ table 24 := by
  refine ⟨_, nearlyFull_table, by decide +kernel, by decide +kernel, ?_⟩
  refine not_frugal_of_exact (run_indexed nearlyFull_table) rfl ⟨by decide, 0, _, rfl, rfl, ?_⟩
  decide +kernel

/-- The 16 bytes that it could have are granted. -/
theorem frugal_nearlyFull :
    ∃ table, Transition.run step (PageTable.new 4194304 1) nearlyFull = some table ∧
      (Frugal ⟨some 0⟩ table 16 ↔ ¬ FitsExactly ⟨some 0⟩ table 16) :=
  ⟨_, nearlyFull_table, frugal_iff nearlyFull_table ⟨some 0⟩ (by decide)⟩

end UwUGC.Mm.Context
