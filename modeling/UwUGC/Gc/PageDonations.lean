import UwUGC.Mm.Donation
import UwUGC.State.SystemSteps

/-! The donations of step 3. The pages that were opened while the marker ran are put into its
table in order; each has to come to lie behind what is used there. -/

set_option autoImplicit false

namespace UwUGC

namespace PageTable

/-- The index at which the table takes the page at `idx` of the other one. -/
def landing (table mm : PageTable) (idx : Nat) : Nat :=
  wrappingSub ((mm.baseAddr + idx * basePageSize) / basePageSize) table.baseAddr

/-- It is behind the used part of the table and within it. -/
def Lands (table mm : PageTable) (idx : Nat) : Prop :=
  table.currentBasePage ≤ table.landing mm idx ∧ table.landing mm idx < table.nrPages

instance (table mm : PageTable) (idx : Nat) : Decidable (table.Lands mm idx) := inferInstanceAs (Decidable (_ ∧ _))

/-- Nothing lies behind the used part. -/
structure Free (table : PageTable) : Prop where
  length : table.pageTable.length = table.nrPages
  below : ∀ {idx page}, table.slot idx = some page → idx < table.currentBasePage

variable {table mm later : PageTable} {idx other : Nat} {page : FlexPage}

theorem Placed.free (placed : table.Placed) : table.Free := ⟨placed.length, placed.indexed.below⟩

theorem Placed.donatedIndex (placed : mm.Placed) (found : mm.slot idx = some page) :
    table.donatedIndex page = table.landing mm idx := by
  rw [PageTable.donatedIndex, landing, placed.start found]

theorem landing_frame (base : later.baseAddr = table.baseAddr) : later.landing mm idx = table.landing mm idx := by
  rw [landing, landing, base]

theorem Lands.frame (base : later.baseAddr = mm.baseAddr) : table.Lands later idx ↔ table.Lands mm idx := by
  rw [Lands, Lands, landing, landing, base]

/-- The indices of later pages follow, since no table has as many pages as there are addresses. -/
theorem landing_later (within : table.landing mm idx < table.nrPages) (ordered : idx ≤ other)
    (room : other + table.nrPages ≤ 2 ^ 64) : table.landing mm other = table.landing mm idx + (other - idx) := by
  simp only [landing, wrappingSub, Nat.add_mul_div_right _ _ basePageSize_pos] at within ⊢
  generalize mm.baseAddr / basePageSize = first at within ⊢
  omega

theorem donatePage_lands (free : table.Free) (placed : mm.Placed) (found : mm.slot idx = some page)
    (lands : table.Lands mm idx) :
    table.donatePage page = (.ok (), { table with currentBasePage := table.landing mm idx + page.nrPages }.setPage
      (table.landing mm idx) page) := by
  obtain ⟨behind, within⟩ := lands
  have empty : table.pageTable[table.landing mm idx]? = some none := by
    have bound := free.length ▸ within
    cases there : table.pageTable[table.landing mm idx]? with
    | none => exact absurd (List.getElem?_eq_none_iff.mp there) (Nat.not_le.mpr bound)
    | some slot =>
        cases slot with
        | none => rfl
        | some old =>
            have used := free.below (slot_eq_some.mpr there)
            omega
  have index : wrappingSub (page.start / basePageSize) table.baseAddr = table.landing mm idx := placed.donatedIndex found
  simp only [donatePage, index, gt_iff_lt, if_neg (Nat.not_lt.mpr (Nat.le_of_lt within)), ge_iff_le, if_pos behind, empty]

theorem Free.donated (free : table.Free) (nonempty : 0 < page.nrPages) {k : Nat} (behind : table.currentBasePage ≤ k)
    (within : k < table.nrPages) : ({ table with currentBasePage := k + page.nrPages }.setPage k page).Free := by
  have bound : k < table.pageTable.length := free.length ▸ within
  constructor
  case length => simpa [setPage] using free.length
  case below =>
    intro idx other found
    rw [@slot_setPage { table with currentBasePage := k + page.nrPages } k bound page] at found
    change idx < k + page.nrPages
    split at found
    · omega
    · have used := free.below (show table.slot idx = some other from found)
      omega

/-- Pages that follow each other land one behind the other. -/
theorem Lands.follows (placed : mm.Placed) (room : mm.nrPages + table.nrPages ≤ 2 ^ 64)
    (found : mm.slot idx = some page) (lands : table.Lands mm idx) {next : FlexPage} (ordered : idx < other)
    (there : mm.slot other = some next) :
    table.landing mm idx + page.nrPages ≤ table.landing mm other := by
  have inside := placed.indexed.below there
  have bounded := placed.bounded
  have apart := placed.separate found there ordered
  have later := landing_later lands.2 (Nat.le_of_lt ordered) (Nat.le_trans (by omega) room)
  omega

end PageTable

namespace Gc.Collector

open PageTable

variable {mm table : PageTable}

theorem donatePages_cons {idx : Nat} {rest : List Nat} {page : FlexPage} {after final : PageTable}
    (found : mm.slot idx = some page) (donated : table.donatePage page = (.ok (), after))
    (behind : donatePages mm rest after = .ok final) : donatePages mm (idx :: rest) table = .ok final := by
  simp only [donatePages, bind_eq_ok]
  refine ⟨some page, getPage_eq_ok_some.mpr found, ?_⟩
  simp only [bind_eq_ok]
  exact ⟨after, donated_eq_ok.mpr donated, behind⟩

/-- Each page of the range has been taken, and what was there before stays. -/
structure Takes (mm table final : PageTable) (start stop : Nat) : Prop where
  kept : ∀ k page, table.slot k = some page → final.slot k = some page
  taken : ∀ idx page, start ≤ idx → idx < stop → mm.slot idx = some page →
    final.slot (table.landing mm idx) = some page

theorem donatePages_lands (placed : mm.Placed) (room : mm.nrPages + table.nrPages ≤ 2 ^ 64) (free : table.Free)
    {start count : Nat} (inTable : start + count ≤ mm.nrPages)
    (lands : ∀ idx page, start ≤ idx → mm.slot idx = some page → table.Lands mm idx) :
    ∃ final, donatePages mm (List.range' start count) table = .ok final ∧ Takes mm table final start (start + count) := by
  induction count generalizing start table with
  | zero => exact ⟨table, rfl, fun _ _ found => found, fun idx page late early => by omega⟩
  | succ count ih =>
      rw [List.range'_succ]
      have stop : start + (count + 1) = start + 1 + count := by omega
      cases slot : mm.slot start with
      | none =>
          obtain ⟨final, donated, kept, taken⟩ := @ih table room free (start + 1) (by omega) fun idx page late found =>
            lands idx page (Nat.le_of_succ_le late) found
          have there : mm.getPage start = .ok none := by
            have bound : start < mm.pageTable.length := by
              rw [placed.length]
              omega
            rw [PageTable.slot, List.getElem?_eq_getElem bound, Option.getD_some] at slot
            simp only [getPage, List.getElem?_eq_getElem bound, slot]
          refine ⟨final, ?_, kept, ?_⟩
          · simp only [donatePages, there, bind, Except.bind, donated]
          · intro idx page late early found
            refine taken idx page ?_ (stop ▸ early) found
            rcases Nat.eq_or_lt_of_le late with rfl | later
            · rw [slot] at found
              cases found
            · exact later
      | some first =>
          have here := lands start first (Nat.le_refl _) slot
          have nonempty := placed.nonempty slot
          have donated := donatePage_lands free placed slot here
          have bound : table.landing mm start < table.pageTable.length := free.length ▸ here.2
          generalize same : ({ table with currentBasePage := table.landing mm start + first.nrPages }.setPage
            (table.landing mm start) first) = after at donated
          have base : after.baseAddr = table.baseAddr := same ▸ rfl
          have nrPages : after.nrPages = table.nrPages := same ▸ rfl
          have cursor : after.currentBasePage = table.landing mm start + first.nrPages := same ▸ rfl
          have slots (k : Nat) : after.slot k = if k = table.landing mm start then some first else table.slot k := by
            rw [← same]
            exact slot_setPage bound first k
          -- The pages behind it follow it in the other table as they do here.
          have behind (idx : Nat) (page : FlexPage) (late : start + 1 ≤ idx) (found : mm.slot idx = some page) :
              after.Lands mm idx := by
            rw [PageTable.Lands, landing_frame base, cursor, nrPages]
            exact ⟨here.follows placed room slot late found, (lands idx page (Nat.le_of_lt late) found).2⟩
          obtain ⟨final, rest, kept, taken⟩ := ih (nrPages ▸ room) (same ▸ free.donated nonempty here.1 here.2) (by omega) behind
          refine ⟨final, ?_, ?_, ?_⟩
          · exact donatePages_cons slot donated rest
          · intro k page found
            refine kept k page ?_
            have used := free.below found
            rw [slots, if_neg (by have := here.1; omega)]
            exact found
          · intro idx page late early found
            rcases Nat.eq_or_lt_of_le late with rfl | later
            · cases slot.symm.trans found
              exact kept _ _ ((slots _).trans (if_pos rfl))
            · rw [← landing_frame base]
              exact taken idx page later (stop ▸ early) found

end Gc.Collector

end UwUGC
