import UwUGC.Lib.Transition
import UwUGC.Mm.Compaction

/-! Everything that changes a page table: allocations through contexts in any state and past
them, clearing, and the donation of pages. -/

set_option autoImplicit false

namespace UwUGC

/-- What holds of every page that was opened and bumped. -/
structure FlexPage.Valid (page : FlexPage) : Prop where
  nonempty : 0 < page.nrPages
  used : page.used ≤ page.size

namespace PageTable

inductive Action where
  | alloc (context : Mm.Context) (size : Nat)
  | direct (size : Nat)
  | clear
  | donate (page : FlexPage) (valid : page.Valid)

/-- The table that a donation leaves if it returns. -/
def donatedTable : Except Panic Unit × PageTable → Option PageTable
  | (.ok (), final) => some final
  | (.error _, _) => none

theorem donatedTable_eq_some {outcome : Except Panic Unit × PageTable} {final : PageTable} :
    donatedTable outcome = some final ↔ outcome = (.ok (), final) := by
  obtain ⟨result, kept⟩ := outcome
  cases result <;> simp [donatedTable]

def step (table : PageTable) : Action → Option PageTable
  | .alloc context size =>
      match context.allocFromPageTable table size with
      | .ok (_, _, final) => some final
      | .error _ => none
  | .direct size =>
      match table.alloc size with
      | .ok (_, final) => some final
      | .error _ => none
  | .clear => some table.clear
  | .donate page _ => donatedTable (table.donatePage page)

inductive Steps (table : PageTable) : Action → PageTable → Prop where
  | alloc {context : Mm.Context} {size : Nat} {kind : FlexPageKind} {buffer : Option Nat} {fits : FlexPage → Prop}
      {result : Option (Nat × Nat)} {final : PageTable} (positive : 0 < kind.nrPages)
      (step : Allocates kind buffer fits size table result final) : Steps table (.alloc context size) final
  | direct {size : Nat} {kind : FlexPageKind} {buffer : Option Nat} {fits : FlexPage → Prop}
      {result : Option (Nat × Nat)} {final : PageTable} (positive : 0 < kind.nrPages)
      (step : Allocates kind buffer fits size table result final) : Steps table (.direct size) final
  | clear : Steps table .clear table.clear
  | donate {page : FlexPage} {valid : page.Valid} {final : PageTable}
      (donated : table.donatePage page = (.ok (), final)) : Steps table (.donate page valid) final

variable {table final : PageTable} {page : FlexPage} {action : Action}

theorem step_eq_some (indexed : table.Indexed) (taken : table.step action = some final) :
    Steps table action final := by
  cases action with
  | alloc context size =>
      simp only [step] at taken
      split at taken
      · next returned =>
          cases taken
          exact .alloc (sizeClass_nrPages_pos size) (Mm.Context.allocates_of_returned indexed returned).2
      · cases taken
  | direct size =>
      simp only [step] at taken
      split at taken
      · next returned =>
          cases taken
          exact .direct (Mm.Allocator.directClass_nrPages_pos size) ((alloc_eq_ok indexed.slotted).mp returned).2
      · cases taken
  | clear =>
      cases taken
      exact .clear
  | donate page valid => exact .donate (donatedTable_eq_some.mp taken)

/-- A page that a table takes fills an empty slot at or behind the cursor, whichever that is. -/
theorem donatePage_fills (donated : table.donatePage page = (.ok (), final)) :
    ∃ pageId, pageId = wrappingSub (page.start / basePageSize) table.baseAddr ∧ pageId < table.pageTable.length ∧
      table.currentBasePage ≤ pageId ∧ table.slot pageId = none ∧
      final = { table with currentBasePage := pageId + page.nrPages }.setPage pageId page := by
  simp only [donatePage] at donated
  generalize computed : wrappingSub (page.start / basePageSize) table.baseAddr = pageId at donated
  split at donated
  · cases donated
  · split at donated
    · next behind =>
        split at donated
        · cases donated
        · cases donated
        · next empty =>
            cases donated
            obtain ⟨bound, _⟩ := List.getElem?_eq_some_iff.mp empty
            refine ⟨pageId, rfl, bound, behind, ?_, rfl⟩
            simp only [slot, empty, Option.getD_some]
    · cases donated

theorem Indexed.donated (indexed : table.Indexed) (nonempty : 0 < page.nrPages)
    (donated : table.donatePage page = (.ok (), final)) : final.Indexed := by
  obtain ⟨pageId, _, bound, behind, _, rfl⟩ := donatePage_fills donated
  have slots := @slot_setPage { table with currentBasePage := pageId + page.nrPages } pageId bound page
  constructor
  case length => simpa [setPage] using indexed.length
  case nonempty =>
    intro idx other found
    rw [slots] at found
    split at found
    · cases found
      exact nonempty
    · exact indexed.nonempty found
  case below =>
    intro idx other found
    rw [slots] at found
    simp only [setPage]
    split at found
    · omega
    · have below : idx < table.currentBasePage := indexed.below found
      omega
  case medium =>
    intro idx selected
    obtain ⟨other, found, medium⟩ := indexed.medium selected
    have different : idx ≠ pageId := by
      have below := indexed.below found
      omega
    exact ⟨other, (slots idx).trans ((if_neg different).trans found), medium⟩

theorem Indexed.step (indexed : table.Indexed) (taken : table.step action = some final) : final.Indexed := by
  cases step_eq_some indexed taken with
  | alloc positive step => exact step.indexed indexed positive
  | direct positive step => exact step.indexed indexed positive
  | clear => exact (Mm.placed_clear indexed.length).indexed
  | @donate _ valid _ donated => exact indexed.donated valid.nonempty donated

theorem run_indexed {baseAddr nrPages : Nat} {actions : List Action}
    (ran : Transition.run step (PageTable.new baseAddr nrPages) actions = some table) : table.Indexed :=
  Transition.run_invariant Indexed ran (Mm.Allocator.placed_new baseAddr nrPages).indexed
    fun _ _ _ indexed taken => indexed.step taken

end PageTable

end UwUGC
