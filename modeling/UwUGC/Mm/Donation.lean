import UwUGC.Mm.PageResolution
import UwUGC.Mm.TableRuns

/-! Where a donated page goes. The index is computed from the address of the page in base pages
less the base address in bytes. -/

set_option autoImplicit false

namespace UwUGC.PageTable

variable {table final : PageTable} {page : FlexPage} {k : Nat}

/-- The page lies at an index of the table, behind the used part and within it. -/
structure Accepts (table : PageTable) (page : FlexPage) (k : Nat) : Prop where
  start : page.start = table.baseAddr + k * basePageSize
  behind : table.currentBasePage ≤ k
  within : k + page.nrPages ≤ table.nrPages

structure Donated (table : PageTable) (page : FlexPage) (k : Nat) (final : PageTable) : Prop where
  stored : final.slot k = some page
  others : ∀ idx, idx ≠ k → final.slot idx = table.slot idx
  usedEnd : final.getUsedEndPage = k + page.nrPages
  inside : ∀ addr, page.range.Contains addr → final.resolveToPage addr = .ok (some k)
  gap : ∀ addr, table.getTopAddr ≤ addr → addr < page.start → final.resolveToPage addr = .ok none

/-- A donation does what it is for. -/
structure Donates (table : PageTable) (page : FlexPage) : Prop where
  accepted : ∀ k, table.Accepts page k →
    ∃ final, table.donatePage page = (.ok (), final) ∧ table.Donated page k final
  refused : (∀ k, ¬ table.Accepts page k) → ∃ panic, table.donatePage page = (.error panic, table)

def donatedIndex (table : PageTable) (page : FlexPage) : Nat :=
  wrappingSub (page.start / basePageSize) table.baseAddr

/-- A page of the space is donated at the base address zero only, and one of another space where
the index computed is neither behind the used part nor within the table. -/
structure Computes (table : PageTable) (page : FlexPage) : Prop where
  own : ∀ k, table.Accepts page k → table.baseAddr = 0
  other : (∀ k, ¬ table.Accepts page k) →
    table.donatedIndex page < table.currentBasePage ∨ table.nrPages < table.donatedIndex page

theorem Accepts.unique {other : Nat} (accepts : table.Accepts page k) (also : table.Accepts page other) : other = k := by
  have same : other * basePageSize = k * basePageSize := by
    have left := accepts.start
    have right := also.start
    omega
  exact Nat.eq_of_mul_eq_mul_right basePageSize_pos same

/-- The three outcomes of the code. -/
theorem donatePage_beyond (beyond : table.nrPages < table.donatedIndex page) :
    ∃ panic, table.donatePage page = (.error panic, table) := by
  unfold donatedIndex at beyond
  unfold donatePage
  generalize wrappingSub (page.start / basePageSize) table.baseAddr = pageId at beyond
  exact ⟨_, if_pos beyond⟩

theorem donatePage_before (within : ¬ table.nrPages < table.donatedIndex page)
    (before : table.donatedIndex page < table.currentBasePage) :
    ∃ panic, table.donatePage page = (.error panic, table) := by
  unfold donatedIndex at within before
  unfold donatePage
  generalize wrappingSub (page.start / basePageSize) table.baseAddr = pageId at within before
  exact ⟨_, (if_neg within).trans (if_neg (Nat.not_le.mpr before))⟩

theorem donatePage_moves (within : ¬ table.nrPages < table.donatedIndex page)
    (behind : table.currentBasePage ≤ table.donatedIndex page) :
    (table.donatePage page).2.currentBasePage = table.donatedIndex page + page.nrPages := by
  unfold donatedIndex at within behind ⊢
  unfold donatePage
  generalize wrappingSub (page.start / basePageSize) table.baseAddr = pageId at within behind
  simp only [gt_iff_lt, if_neg within, ge_iff_le, if_pos behind]
  cases table.pageTable[pageId]? with
  | none => rfl
  | some slot => cases slot <;> rfl

theorem donatePage_stores (indexed : table.Indexed) (nonempty : 0 < page.nrPages)
    (index : table.donatedIndex page = k) (behind : table.currentBasePage ≤ k)
    (within : k + page.nrPages ≤ table.nrPages) :
    table.donatePage page = (.ok (), { table with currentBasePage := k + page.nrPages }.setPage k page) := by
  have bound : k < table.pageTable.length := by
    rw [indexed.length]
    omega
  have empty : table.slot k = none := by
    cases found : table.slot k with
    | none => rfl
    | some other =>
        have below := indexed.below found
        omega
  have slot : table.pageTable[k]? = some none := by
    rw [List.getElem?_eq_getElem bound, Option.some.injEq]
    rw [PageTable.slot, List.getElem?_eq_getElem bound, Option.getD_some] at empty
    exact empty
  unfold donatedIndex at index
  unfold donatePage
  simp only [index, gt_iff_lt, if_neg (show ¬ table.nrPages < k by omega), ge_iff_le, if_pos behind, slot]

theorem Placed.donated (placed : table.Placed) (valid : page.Valid) (accepts : table.Accepts page k) :
    ({ table with currentBasePage := k + page.nrPages }.setPage k page).Placed := by
  obtain ⟨start, behind, within⟩ := accepts
  have nonempty := valid.nonempty
  have bound : k < table.pageTable.length := by
    rw [placed.length]
    omega
  have slots := @slot_setPage { table with currentBasePage := k + page.nrPages } k bound page
  have old {idx : Nat} {other : FlexPage} (found : table.slot idx = some other) : idx + other.nrPages ≤ k :=
    Nat.le_trans (placed.within found) behind
  constructor
  case length => simpa [setPage] using placed.length
  case bounded => exact within
  case nonempty =>
    intro idx other found
    rw [slots] at found
    split at found
    · cases found
      exact nonempty
    · exact placed.nonempty found
  case start =>
    intro idx other found
    rw [slots] at found
    split at found
    · next same =>
        cases found
        rw [same]
        exact start
    · exact placed.start found
  case within =>
    intro idx other found
    rw [slots] at found
    split at found
    · next same =>
        cases found
        rw [same]
        exact Nat.le_refl _
    · exact Nat.le_trans (old found) (Nat.le_add_right _ _)
  case used =>
    intro idx other found
    rw [slots] at found
    split at found
    · cases found
      exact valid.used
    · exact placed.used found
  case separate =>
    intro left right leftPage rightPage leftFound rightFound before
    rw [slots] at leftFound rightFound
    split at leftFound
    · split at rightFound
      · omega
      · have late := placed.within (show table.slot right = some rightPage from rightFound)
        omega
    · split at rightFound
      · next same => exact same ▸ old leftFound
      · exact placed.separate leftFound rightFound before
  case medium =>
    intro idx selected
    obtain ⟨other, found, medium⟩ := placed.medium selected
    have different : idx ≠ k := by
      have late := old found
      have positive := placed.nonempty found
      omega
    exact ⟨other, (slots idx).trans ((if_neg different).trans found), medium⟩

/-- A page at its own index is found from all its addresses, and the gap before it is left out. -/
theorem Placed.donated_resolves (placed : table.Placed) (valid : page.Valid) (accepts : table.Accepts page k) :
    table.Donated page k ({ table with currentBasePage := k + page.nrPages }.setPage k page) := by
  have after := placed.donated valid accepts
  have bound : k < table.pageTable.length := by
    have within := accepts.within
    have nonempty := valid.nonempty
    rw [placed.length]
    omega
  have slots := @slot_setPage { table with currentBasePage := k + page.nrPages } k bound page
  have stored := (slots k).trans (if_pos rfl)
  constructor
  case stored => exact stored
  case others => exact fun idx different => (slots idx).trans (if_neg different)
  case usedEnd => rfl
  case inside => exact fun addr inside => resolveToPage_found after.arranged stored inside
  case gap =>
    intro addr above below
    refine resolveToPage_none after.arranged ?_
    intro idx other found
    rw [slots] at found
    split at found
    · cases found
      intro inside
      exact absurd inside.1 (Nat.not_le.mpr below)
    · -- Every other page ends at the used end of before.
      have start := placed.start (show table.slot idx = some other from found)
      have within := placed.within (show table.slot idx = some other from found)
      have scaled := Nat.mul_le_mul_right basePageSize within
      rw [Nat.add_mul] at scaled
      rintro ⟨_, upper⟩
      simp only [getTopAddr] at above
      simp only [Span.stop, FlexPage.range, FlexPage.size_of_nrPages] at upper
      omega

theorem wrappingSub_own {base index : Nat} (baseBound : base < 2 ^ 64) (indexBound : index < 2 ^ 64) :
    wrappingSub (base / basePageSize + index) base = index ↔ base = 0 := by
  rw [wrappingSub, Nat.mod_eq_of_lt baseBound, basePageSize_eq]
  constructor
  · intro same
    by_contra positive
    have smaller : base / 2097152 < base := Nat.div_lt_self (Nat.pos_of_ne_zero positive) (by decide)
    generalize base / 2097152 = quotient at *
    omega
  · intro zero
    subst zero
    omega

/-- The index computed for a page of the space is its own at the base address zero only. -/
theorem donatedIndex_own (base : table.baseAddr < 2 ^ 64) (pages : table.nrPages < 2 ^ 64)
    (nonempty : 0 < page.nrPages) (accepts : table.Accepts page k) :
    table.donatedIndex page = k ↔ table.baseAddr = 0 := by
  obtain ⟨start, _, within⟩ := accepts
  have index : page.start / basePageSize = table.baseAddr / basePageSize + k := by
    rw [start, Nat.add_mul_div_right _ _ basePageSize_pos]
  rw [donatedIndex, index]
  exact wrappingSub_own base (by omega)

theorem donates_iff (placed : table.Placed) (base : table.baseAddr < 2 ^ 64) (pages : table.nrPages < 2 ^ 64)
    (valid : page.Valid) : table.Donates page ↔ table.Computes page := by
  constructor
  · intro donates
    constructor
    case own =>
      intro k accepts
      obtain ⟨final, returned, donated⟩ := donates.accepted k accepts
      obtain ⟨pageId, index, _, behind, empty, rfl⟩ := donatePage_fills returned
      rw [← donatedIndex_own base pages valid.nonempty accepts, donatedIndex, ← index]
      have moved : pageId + page.nrPages = k + page.nrPages := donated.usedEnd
      exact Nat.add_right_cancel moved
    case other =>
      intro refused
      obtain ⟨panic, returned⟩ := donates.refused refused
      by_contra taken
      rw [not_or, Nat.not_lt] at taken
      have moved := donatePage_moves taken.2 taken.1
      rw [returned] at moved
      have still : table.currentBasePage = table.donatedIndex page + page.nrPages := moved
      have nonempty := valid.nonempty
      omega
  · intro computes
    constructor
    case accepted =>
      intro k accepts
      have index := (donatedIndex_own base pages valid.nonempty accepts).mpr (computes.own k accepts)
      exact ⟨_, donatePage_stores placed.indexed valid.nonempty index accepts.behind accepts.within,
        placed.donated_resolves valid accepts⟩
    case refused =>
      intro refused
      by_cases beyond : table.nrPages < table.donatedIndex page
      · exact donatePage_beyond beyond
      · rcases computes.other refused with before | reaches
        · exact donatePage_before beyond before
        · exact absurd reaches beyond

/-- What holds in a run whose donations all do what they are for. -/
structure InSpace (baseAddr nrPages : Nat) (table : PageTable) : Prop where
  placed : table.Placed
  base : table.baseAddr = baseAddr
  pages : table.nrPages = nrPages

theorem InSpace.step {baseAddr nrPages : Nat} {action : Action} (inSpace : InSpace baseAddr nrPages table)
    (donates : ∀ page valid, action = .donate page valid → table.Donates page)
    (taken : table.step action = some final) : InSpace baseAddr nrPages final := by
  obtain ⟨placed, base, pages⟩ := inSpace
  cases step_eq_some placed.indexed taken with
  | alloc positive step => exact ⟨step.placed placed positive, step.frame.1.trans base, step.frame.2.1.trans pages⟩
  | direct positive step => exact ⟨step.placed placed positive, step.frame.1.trans base, step.frame.2.1.trans pages⟩
  | clear => exact ⟨Mm.placed_clear placed.length, base, pages⟩
  | @donate page valid _ donated =>
      have own := donates page valid rfl
      by_cases accepted : ∃ k, table.Accepts page k
      · obtain ⟨k, accepts⟩ := accepted
        obtain ⟨other, returned, atOwn⟩ := own.accepted k accepts
        rw [donated] at returned
        cases returned
        obtain ⟨pageId, _, _, _, _, rfl⟩ := donatePage_fills donated
        have moved : pageId + page.nrPages = k + page.nrPages := atOwn.usedEnd
        cases Nat.add_right_cancel moved
        exact ⟨placed.donated valid accepts, base, pages⟩
      · obtain ⟨panic, returned⟩ := own.refused (not_exists.mp accepted)
        rw [donated] at returned
        cases returned

/-- In every run every donation, and so every sequence of them, does what it is for, exactly when
the index is computed right for each. -/
theorem donations_iff {baseAddr nrPages : Nat} (base : baseAddr < 2 ^ 64) (pages : nrPages < 2 ^ 64)
    (actions : List Action) :
    Transition.EachStep step (PageTable.new baseAddr nrPages) actions
        (fun table action => ∀ page valid, action = .donate page valid → table.Donates page) ↔
      Transition.EachStep step (PageTable.new baseAddr nrPages) actions
        (fun table action => ∀ page valid, action = .donate page valid → table.Computes page) := by
  refine Transition.EachStep.iff_of_invariant (InSpace baseAddr nrPages) ?_ ?_ ?_
  · exact ⟨Mm.Allocator.placed_new baseAddr nrPages, rfl, rfl⟩
  · intro table action inSpace
    refine forall_congr' fun page => forall_congr' fun valid => imp_congr_right fun _ => ?_
    exact donates_iff inSpace.placed (inSpace.base.symm ▸ base) (inSpace.pages.symm ▸ pages) valid
  · exact fun table action final inSpace donates taken => inSpace.step donates taken

/-- A small page at the third index of a space at 4 MiB. -/
def ownPage : FlexPage := ⟨.small, 8388608, 0⟩

theorem ownPage_valid : ownPage.Valid := ⟨by decide, Nat.zero_le _⟩

theorem own_page_refused :
    (PageTable.new 4194304 4).Accepts ownPage 2 ∧ (∃ panic, ((PageTable.new 4194304 4).donatePage ownPage).1 = .error panic) ∧
      ¬ (PageTable.new 4194304 4).Donates ownPage := by
  have accepts : (PageTable.new 4194304 4).Accepts ownPage 2 :=
    ⟨by simp [ownPage, PageTable.new, basePageSize_eq], Nat.zero_le _, by decide⟩
  have beyond : (PageTable.new 4194304 4).nrPages < (PageTable.new 4194304 4).donatedIndex ownPage := by
    decide +kernel
  obtain ⟨panic, returned⟩ := donatePage_beyond beyond
  refine ⟨accepts, ⟨panic, congrArg Prod.fst returned⟩, ?_⟩
  intro donates
  obtain ⟨final, stored, _⟩ := donates.accepted 2 accepts
  rw [returned] at stored
  cases stored

/-- A page behind the end of the space. -/
def foreignPage : FlexPage := ⟨.small, 16777216, 0⟩

theorem foreignPage_valid : foreignPage.Valid := ⟨by decide, Nat.zero_le _⟩

/-- Behind an allocation, a page of another space is refused as it should be, and an own page is refused too. -/
theorem donations_allocated :
    Transition.EachStep step (PageTable.new 4194304 4) [.alloc .new 24, .donate foreignPage foreignPage_valid]
        (fun table action => ∀ page valid, action = .donate page valid → table.Donates page) ∧
      ¬ Transition.EachStep step (PageTable.new 4194304 4) [.alloc .new 24, .donate ownPage ownPage_valid]
        (fun table action => ∀ page valid, action = .donate page valid → table.Donates page) := by
  have seen : (Transition.run step (PageTable.new 4194304 4) [.alloc .new 24]).map
      (fun table => (table.baseAddr, table.currentBasePage, table.nrPages)) = some (4194304, 1, 4) := by
    decide +kernel
  obtain ⟨table, ran, same⟩ := Option.map_eq_some_iff.mp seen
  simp only [Prod.mk.injEq] at same
  obtain ⟨base, used, pages⟩ := same
  constructor
  · refine (donations_iff (by decide) (by decide) _).mpr ?_
    intro past action rest state split reached page valid donates
    rcases past with - | ⟨_, - | ⟨_, past⟩⟩
    · cases split
      cases donates
    · cases split
      cases donates
      cases reached.symm.trans ran
      refine ⟨fun k accepts => ?_, fun _ => .inr ?_⟩
      · have start := accepts.start
        have within := accepts.within
        rw [base, basePageSize_eq] at start
        simp only [foreignPage, FlexPage.nrPages, FlexPageKind.nrPages_small] at start within
        omega
      · rw [donatedIndex, base, pages]
        decide +kernel
    · simp at split
  · refine (donations_iff (by decide) (by decide) _).not.mpr fun each => ?_
    have accepts : table.Accepts ownPage 2 := by
      refine ⟨?_, by omega, ?_⟩
      · rw [base, basePageSize_eq]
        rfl
      · rw [pages]
        decide
    have null := (each [.alloc .new 24] _ [] table rfl ran ownPage ownPage_valid rfl).own 2 accepts
    omega

end UwUGC.PageTable
