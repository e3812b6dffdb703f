import UwUGC.Mm.Context
import Mathlib.Tactic.Linarith

/-! What one allocation can do to a page table, and the invariant every
allocation keeps: the pages present lie one behind the other in the used
prefix of the base pages, and each is used up to its bump pointer only. -/

set_option autoImplicit false

namespace UwUGC

/-- The page class that serves a size when the request comes from a context. -/
def sizeClass (size : Nat) : FlexPageKind :=
  if size < FlexPageKind.small.maxObjectSize then .small
  else if size < FlexPageKind.medium.maxObjectSize then .medium
  else .huge (PageTable.divCeil size basePageSize)

theorem sizeClass_eq_small {size : Nat} : sizeClass size = .small ↔ size < FlexPageKind.small.maxObjectSize := by
  unfold sizeClass
  split
  · next small => exact iff_of_true rfl small
  · next large =>
      refine iff_of_false ?_ large
      split <;> simp

namespace PageTable

def opened (table : PageTable) (kind : FlexPageKind) (size : Nat) : PageTable :=
  { table with
    currentBasePage := table.currentBasePage + kind.nrPages
    pageTable := table.pageTable.set table.currentBasePage
      (some ⟨kind, table.baseAddr + table.currentBasePage * basePageSize, size⟩)
    mediumBufferPage := if kind = .medium then some table.currentBasePage else table.mediumBufferPage }

def bumped (table : PageTable) (idx : Nat) (page : FlexPage) (size : Nat) : PageTable :=
  table.setPage idx { page with usedBytes := page.usedBytes + size }

/-- The pages present lie in the used prefix, each at its own index, without overlap. -/
structure Placed (table : PageTable) : Prop where
  length : table.pageTable.length = table.nrPages
  bounded : table.currentBasePage ≤ table.nrPages
  nonempty : ∀ {idx page}, table.slot idx = some page → 0 < page.nrPages
  start : ∀ {idx page}, table.slot idx = some page → page.start = table.baseAddr + idx * basePageSize
  within : ∀ {idx page}, table.slot idx = some page → idx + page.nrPages ≤ table.currentBasePage
  used : ∀ {idx page}, table.slot idx = some page → page.used ≤ page.size
  separate : ∀ {left right leftPage rightPage}, table.slot left = some leftPage →
    table.slot right = some rightPage → left < right → left + leftPage.nrPages ≤ right
  medium : ∀ {idx}, table.mediumBufferPage = some idx →
    ∃ page, table.slot idx = some page ∧ page.kind = .medium

/-- The same of pages that may be of no base page, and whatever their bump pointers. -/
structure Arranged (table : PageTable) : Prop where
  length : table.pageTable.length = table.nrPages
  bounded : table.currentBasePage ≤ table.nrPages
  start : ∀ {idx page}, table.slot idx = some page → page.start = table.baseAddr + idx * basePageSize
  within : ∀ {idx page}, table.slot idx = some page → idx + page.nrPages ≤ table.currentBasePage
  separate : ∀ {left right leftPage rightPage}, table.slot left = some leftPage →
    table.slot right = some rightPage → left < right → left + leftPage.nrPages ≤ right
  medium : ∀ {idx}, table.mediumBufferPage = some idx →
    ∃ page, table.slot idx = some page ∧ page.kind = .medium

theorem Placed.arranged {table : PageTable} (placed : table.Placed) : table.Arranged where
  length := placed.length
  bounded := placed.bounded
  start := placed.start
  within := placed.within
  separate := placed.separate
  medium := placed.medium

theorem Arranged.placed {table : PageTable} (arranged : table.Arranged)
    (nonempty : ∀ {idx page}, table.slot idx = some page → 0 < page.nrPages)
    (used : ∀ {idx page}, table.slot idx = some page → page.used ≤ page.size) : table.Placed where
  length := arranged.length
  bounded := arranged.bounded
  nonempty := nonempty
  start := arranged.start
  within := arranged.within
  used := used
  separate := arranged.separate
  medium := arranged.medium

/-- What the allocator itself needs of a table: a slot for each base page, no page at or
behind the cursor, and a medium page behind the medium index. -/
structure Indexed (table : PageTable) : Prop where
  length : table.pageTable.length = table.nrPages
  nonempty : ∀ {idx page}, table.slot idx = some page → 0 < page.nrPages
  below : ∀ {idx page}, table.slot idx = some page → idx < table.currentBasePage
  medium : ∀ {idx}, table.mediumBufferPage = some idx →
    ∃ page, table.slot idx = some page ∧ page.kind = .medium

/-- What `alloc` needs. -/
structure Slotted (table : PageTable) : Prop where
  length : table.pageTable.length = table.nrPages
  medium : ∀ {idx}, table.mediumBufferPage = some idx →
    ∃ page, table.slot idx = some page ∧ page.kind = .medium

theorem Indexed.slotted {table : PageTable} (indexed : table.Indexed) : table.Slotted where
  length := indexed.length
  medium := indexed.medium

theorem Placed.indexed {table : PageTable} (placed : table.Placed) : table.Indexed where
  length := placed.length
  nonempty := placed.nonempty
  below := by
    intro idx page found
    have within := placed.within found
    have nonempty := placed.nonempty found
    omega
  medium := placed.medium

theorem Placed.of_empty {table : PageTable} (length : table.pageTable.length = table.nrPages)
    (empty : ∀ idx, table.slot idx = none) (cursor : table.currentBasePage = 0)
    (medium : table.mediumBufferPage = none) : table.Placed where
  length := length
  bounded := cursor ▸ Nat.zero_le _
  nonempty := by
    intro idx page found
    simp [empty] at found
  start := by
    intro idx page found
    simp [empty] at found
  within := by
    intro idx page found
    simp [empty] at found
  used := by
    intro idx page found
    simp [empty] at found
  separate := by
    intro left right leftPage rightPage found
    simp [empty] at found
  medium := by
    intro idx selected
    simp [medium] at selected

/-- The pages present leave no base page of the used prefix out. -/
def Covered (table : PageTable) : Prop :=
  ∀ k < table.currentBasePage, ∃ idx page,
    table.slot idx = some page ∧ idx ≤ k ∧ k < idx + page.nrPages

/-- What one allocation served by pages of `kind` can do. `buffer` is the page the
caller bumps, and `fits` its room test. -/
inductive Allocates (kind : FlexPageKind) (buffer : Option Nat) (fits : FlexPage → Prop) (size : Nat)
    (table : PageTable) : Option (Nat × Nat) → PageTable → Prop where
  | full (noRoom : ∀ {idx page}, buffer = some idx → table.slot idx = some page → ¬ fits page)
      (exhausted : table.nrPages < table.currentBasePage + kind.nrPages) :
      Allocates kind buffer fits size table none table
  | bump {idx : Nat} {page : FlexPage} (selected : buffer = some idx)
      (found : table.slot idx = some page) (room : fits page) (free : size ≤ page.free) :
      Allocates kind buffer fits size table (some (page.start + page.usedBytes, idx))
        (table.bumped idx page size)
  | fresh (noRoom : ∀ {idx page}, buffer = some idx → table.slot idx = some page → ¬ fits page)
      (available : table.currentBasePage + kind.nrPages ≤ table.nrPages)
      (nonnull : table.baseAddr + table.currentBasePage * basePageSize ≠ 0)
      (free : size ≤ kind.nrPages * basePageSize) :
      Allocates kind buffer fits size table
        (some (table.baseAddr + table.currentBasePage * basePageSize, table.currentBasePage))
        (table.opened kind size)

theorem slot_eq_some {table : PageTable} {idx : Nat} {page : FlexPage} :
    table.slot idx = some page ↔ table.pageTable[idx]? = some (some page) := by
  unfold slot
  cases found : table.pageTable[idx]? <;> simp

theorem getPage_eq_ok_some {table : PageTable} {idx : Nat} {page : FlexPage} :
    table.getPage idx = .ok (some page) ↔ table.slot idx = some page := by
  rw [slot_eq_some]
  unfold getPage
  cases found : table.pageTable[idx]? <;> simp

theorem slot_lt_length {table : PageTable} {idx : Nat} {page : FlexPage}
    (found : table.slot idx = some page) : idx < table.pageTable.length := by
  obtain ⟨bound, _⟩ := List.getElem?_eq_some_iff.mp (slot_eq_some.mp found)
  exact bound

@[simp] theorem slot_setPage {table : PageTable} {idx : Nat} (bound : idx < table.pageTable.length)
    (page : FlexPage) (other : Nat) :
    (table.setPage idx page).slot other = if other = idx then some page else table.slot other := by
  unfold slot setPage
  simp only [List.getElem?_set]
  by_cases same : other = idx
  · subst same
    simp [bound]
  · simp [same, Ne.symm same]

@[simp] theorem opened_currentBasePage (table : PageTable) (kind : FlexPageKind) (size : Nat) :
    (table.opened kind size).currentBasePage = table.currentBasePage + kind.nrPages := rfl

theorem slot_opened {table : PageTable} (bound : table.currentBasePage < table.pageTable.length)
    (kind : FlexPageKind) (size other : Nat) :
    (table.opened kind size).slot other =
      if other = table.currentBasePage then
        some ⟨kind, table.baseAddr + table.currentBasePage * basePageSize, size⟩
      else table.slot other :=
  slot_setPage bound _ other

theorem slot_bumped {table : PageTable} {idx : Nat} {page : FlexPage} (found : table.slot idx = some page)
    (size other : Nat) :
    (table.bumped idx page size).slot other =
      if other = idx then some { page with usedBytes := page.usedBytes + size } else table.slot other :=
  slot_setPage (slot_lt_length found) _ other

theorem freeIn_eq_ok {table : PageTable} {idx free : Nat} :
    table.freeIn idx = .ok free ↔ ∃ page, table.slot idx = some page ∧ free = page.free := by
  simp only [freeIn, bind_eq_ok, unwrap_eq_ok, Except.ok.injEq]
  constructor
  · rintro ⟨_, got, page, rfl, same⟩
    exact ⟨page, getPage_eq_ok_some.mp got, same.symm⟩
  · rintro ⟨page, found, same⟩
    exact ⟨some page, getPage_eq_ok_some.mpr found, page, rfl, same.symm⟩

theorem allocIn_eq_ok {table final : PageTable} {idx size : Nat} {result : Option (Nat × Nat)} :
    table.allocIn idx size = .ok (result, final) ↔
      ∃ page, table.slot idx = some page ∧ size ≤ page.free ∧
        result = some (page.start + page.usedBytes, idx) ∧ final = table.bumped idx page size := by
  simp only [allocIn, bind_eq_ok, unwrap_eq_ok, Except.ok.injEq, Prod.mk.injEq, Prod.exists,
    FlexPage.alloc_eq_some]
  constructor
  · rintro ⟨_, got, page, rfl, ptr, updated, ⟨free, rfl, rfl⟩, rfl, rfl⟩
    exact ⟨page, getPage_eq_ok_some.mp got, free, rfl, rfl⟩
  · rintro ⟨page, found, free, rfl, rfl⟩
    exact ⟨some page, getPage_eq_ok_some.mpr found, page, rfl, _, _, ⟨free, rfl, rfl⟩, rfl, rfl⟩

theorem allocPage_eq_ok {table final : PageTable} {kind : FlexPageKind} {result : Option Nat}
    (length : table.pageTable.length = table.nrPages) (positive : 0 < kind.nrPages) :
    table.allocPage kind = .ok (result, final) ↔
      (table.nrPages < table.currentBasePage + kind.nrPages ∧ result = none ∧ final = table) ∨
      (table.currentBasePage + kind.nrPages ≤ table.nrPages ∧
        table.baseAddr + table.currentBasePage * basePageSize ≠ 0 ∧
        result = some table.currentBasePage ∧
        final = { table.opened kind 0 with mediumBufferPage := table.mediumBufferPage }) := by
  unfold allocPage
  by_cases exhausted : table.currentBasePage + kind.nrPages > table.nrPages
  · rw [if_pos exhausted, Except.ok.injEq, Prod.mk.injEq]
    constructor
    · rintro ⟨rfl, rfl⟩
      exact .inl ⟨exhausted, rfl, rfl⟩
    · rintro (⟨_, rfl, rfl⟩ | ⟨available, _⟩)
      · exact ⟨rfl, rfl⟩
      · exact absurd exhausted (Nat.not_lt.mpr available)
  · have available : table.currentBasePage + kind.nrPages ≤ table.nrPages := Nat.not_lt.mp exhausted
    have bound : table.currentBasePage < table.pageTable.length := by omega
    have got : table.getPage table.currentBasePage = .ok (table.pageTable[table.currentBasePage]) := by
      simp [getPage, bound]
    rw [if_neg exhausted]
    simp only [got, bind_eq_ok, FlexPage.new_eq_ok, Except.ok.injEq, exists_eq_left', Prod.mk.injEq]
    constructor
    · rintro ⟨page, ⟨nonnull, rfl⟩, rfl, rfl⟩
      exact .inr ⟨available, nonnull, rfl, rfl⟩
    · rintro (⟨more, _⟩ | ⟨_, nonnull, rfl, rfl⟩)
      · exact absurd more exhausted
      · exact ⟨_, ⟨nonnull, rfl⟩, rfl, rfl⟩

/-- The medium page lies before the cursor, so that no page takes its slot. -/
theorem Arranged.medium_opened {table : PageTable} (arranged : table.Arranged)
    (bound : table.currentBasePage < table.pageTable.length) {kind : FlexPageKind} {size idx : Nat}
    (selected : table.mediumBufferPage = some idx) :
    ∃ page, (table.opened kind size).slot idx = some page ∧ page.kind = .medium := by
  obtain ⟨page, found, isMedium⟩ := arranged.medium selected
  have within := arranged.within found
  have four : page.nrPages = 4 := by
    rw [FlexPage.nrPages, isMedium]
    rfl
  exact ⟨page, (slot_opened bound kind size idx).trans ((if_neg (by omega)).trans found), isMedium⟩

/-- A page of no base page at the cursor gives its slot to the new page. -/
theorem Arranged.opened {table : PageTable} (arranged : table.Arranged)
    (bound : table.currentBasePage < table.pageTable.length) {kind : FlexPageKind} {size : Nat}
    (available : table.currentBasePage + kind.nrPages ≤ table.nrPages) : (table.opened kind size).Arranged := by
  have slots := slot_opened bound kind size
  have old {idx page} (found : (table.opened kind size).slot idx = some page)
      (other : idx ≠ table.currentBasePage) : table.slot idx = some page := by
    rwa [slots, if_neg other] at found
  have fresh {page} (found : (table.opened kind size).slot table.currentBasePage = some page) :
      page = ⟨kind, table.baseAddr + table.currentBasePage * basePageSize, size⟩ := by
    rw [slots, if_pos rfl] at found
    exact (Option.some.inj found).symm
  constructor
  case length => simp only [PageTable.opened, List.length_set, arranged.length]
  case bounded => exact available
  case start =>
    intro idx page found
    by_cases at_cursor : idx = table.currentBasePage
    · subst at_cursor
      rw [fresh found]
      rfl
    · exact arranged.start (old found at_cursor)
  case within =>
    intro idx page found
    by_cases at_cursor : idx = table.currentBasePage
    · subst at_cursor
      rw [fresh found]
      exact Nat.le_refl _
    · exact Nat.le_trans (arranged.within (old found at_cursor)) (Nat.le_add_right _ _)
  case separate =>
    intro left right leftPage rightPage leftFound rightFound before
    by_cases left_cursor : left = table.currentBasePage
    · -- Nothing lies behind the cursor.
      have behind := arranged.within (old rightFound (by omega))
      omega
    · have leftWithin := arranged.within (old leftFound left_cursor)
      by_cases right_cursor : right = table.currentBasePage
      · omega
      · exact arranged.separate (old leftFound left_cursor) (old rightFound right_cursor) before
  case medium =>
    intro idx selected
    simp only [PageTable.opened] at selected
    split at selected
    · next isMedium =>
        cases selected
        exact ⟨_, by rw [slots, if_pos rfl], isMedium⟩
    · exact arranged.medium_opened bound selected

theorem Placed.opened {table : PageTable} (placed : table.Placed) {kind : FlexPageKind} {size : Nat}
    (positive : 0 < kind.nrPages) (available : table.currentBasePage + kind.nrPages ≤ table.nrPages)
    (free : size ≤ kind.nrPages * basePageSize) : (table.opened kind size).Placed := by
  have bound : table.currentBasePage < table.pageTable.length := by
    rw [placed.length]
    omega
  refine (placed.arranged.opened bound available).placed ?_ ?_
  · intro idx page found
    rw [slot_opened bound] at found
    split at found
    · cases found
      exact positive
    · exact placed.nonempty found
  · intro idx page found
    rw [slot_opened bound] at found
    split at found
    · cases found
      exact free
    · exact placed.used found

theorem Arranged.bumped {table : PageTable} (arranged : table.Arranged) {idx size : Nat} {page : FlexPage}
    (found : table.slot idx = some page) : (table.bumped idx page size).Arranged := by
  have slots := slot_bumped found size
  -- A page of the bumped table is a page of the old one, up to its used bytes.
  have before {other now} (there : (table.bumped idx page size).slot other = some now) :
      ∃ old, table.slot other = some old ∧ now.start = old.start ∧ now.nrPages = old.nrPages := by
    rw [slots] at there
    split at there
    · next same =>
        subst same
        cases there
        exact ⟨page, found, rfl, rfl⟩
    · exact ⟨now, there, rfl, rfl⟩
  constructor
  case length => simp only [PageTable.bumped, setPage, List.length_set, arranged.length]
  case bounded => exact arranged.bounded
  case start =>
    intro other now there
    obtain ⟨old, oldFound, start, _⟩ := before there
    rw [start]
    exact arranged.start oldFound
  case within =>
    intro other now there
    obtain ⟨old, oldFound, _, nrPages⟩ := before there
    rw [nrPages]
    exact arranged.within oldFound
  case separate =>
    intro left right leftPage rightPage leftThere rightThere ordered
    obtain ⟨leftOld, leftFound, _, nrPages⟩ := before leftThere
    obtain ⟨rightOld, rightFound, _, _⟩ := before rightThere
    rw [nrPages]
    exact arranged.separate leftFound rightFound ordered
  case medium =>
    intro buffer selected
    obtain ⟨old, oldFound, isMedium⟩ := arranged.medium selected
    by_cases same : buffer = idx
    · subst same
      rw [found] at oldFound
      cases oldFound
      exact ⟨_, (slots buffer).trans (if_pos rfl), isMedium⟩
    · exact ⟨old, by rw [slots, if_neg same, oldFound], isMedium⟩

theorem Placed.bumped {table : PageTable} (placed : table.Placed) {idx size : Nat} {page : FlexPage}
    (found : table.slot idx = some page) (free : size ≤ page.free) :
    (table.bumped idx page size).Placed := by
  refine (placed.arranged.bumped found).placed ?_ ?_
  · intro other now there
    rw [slot_bumped found] at there
    split at there
    · cases there
      have nonempty : 0 < page.nrPages := placed.nonempty found
      exact nonempty
    · exact placed.nonempty there
  · intro other now there
    rw [slot_bumped found] at there
    split at there
    · cases there
      have used := placed.used found
      simp only [FlexPage.free, FlexPage.used, FlexPage.size] at used free ⊢
      omega
    · exact placed.used there

theorem Covered.opened {table : PageTable} (covered : table.Covered)
    (bound : table.currentBasePage < table.pageTable.length) {kind : FlexPageKind} {size : Nat} :
    (table.opened kind size).Covered := by
  intro k used
  by_cases old : k < table.currentBasePage
  · obtain ⟨idx, page, found, lower, upper⟩ := covered k old
    refine ⟨idx, page, ?_, lower, upper⟩
    rw [slot_opened bound, if_neg (by omega), found]
  · refine ⟨table.currentBasePage, _, by rw [slot_opened bound, if_pos rfl], by omega, ?_⟩
    exact used

theorem Covered.bumped {table : PageTable} (covered : table.Covered) {idx size : Nat} {page : FlexPage}
    (found : table.slot idx = some page) : (table.bumped idx page size).Covered := by
  intro k used
  obtain ⟨other, there, at_other, lower, upper⟩ := covered k used
  by_cases same : other = idx
  · subst same
    rw [found] at at_other
    cases at_other
    exact ⟨other, _, (slot_bumped found size other).trans (if_pos rfl), lower, upper⟩
  · exact ⟨other, there, by rw [slot_bumped found, if_neg same, at_other], lower, upper⟩

theorem Allocates.placed {kind : FlexPageKind} {buffer : Option Nat} {fits : FlexPage → Prop} {size : Nat}
    {table final : PageTable} {result : Option (Nat × Nat)}
    (step : Allocates kind buffer fits size table result final) (placed : table.Placed)
    (positive : 0 < kind.nrPages) : final.Placed := by
  cases step with
  | full => exact placed
  | bump _ found _ free => exact placed.bumped found free
  | fresh _ available _ free => exact placed.opened positive available free

theorem Allocates.covered {kind : FlexPageKind} {buffer : Option Nat} {fits : FlexPage → Prop} {size : Nat}
    {table final : PageTable} {result : Option (Nat × Nat)}
    (step : Allocates kind buffer fits size table result final) (placed : table.Placed)
    (covered : table.Covered) (positive : 0 < kind.nrPages) : final.Covered := by
  cases step with
  | full => exact covered
  | bump _ found _ _ => exact covered.bumped found
  | fresh _ available _ _ =>
      refine covered.opened ?_
      rw [placed.length]
      omega

theorem Allocates.keeps {kind : FlexPageKind} {buffer : Option Nat} {fits : FlexPage → Prop} {size : Nat}
    {table final : PageTable} {result : Option (Nat × Nat)}
    (step : Allocates kind buffer fits size table result final) (indexed : table.Indexed)
    (positive : 0 < kind.nrPages) {idx : Nat} {page : FlexPage} (found : table.slot idx = some page) :
    ∃ later, final.slot idx = some later ∧ later.kind = page.kind ∧ later.start = page.start ∧
      page.usedBytes ≤ later.usedBytes := by
  cases step with
  | full => exact ⟨page, found, rfl, rfl, Nat.le_refl _⟩
  | @bump served old _ there =>
      by_cases same : idx = served
      · subst same
        rw [found] at there
        cases there
        exact ⟨_, (slot_bumped found size _).trans (if_pos rfl), rfl, rfl, Nat.le_add_right _ _⟩
      · exact ⟨page, (slot_bumped there size _).trans ((if_neg same).trans found), rfl, rfl, Nat.le_refl _⟩
  | fresh _ available _ _ =>
      have below := indexed.below found
      have bound : table.currentBasePage < table.pageTable.length := by
        rw [indexed.length]
        omega
      exact ⟨page, (slot_opened bound kind size _).trans ((if_neg (by omega)).trans found), rfl, rfl,
        Nat.le_refl _⟩

theorem Allocates.indexed {kind : FlexPageKind} {buffer : Option Nat} {fits : FlexPage → Prop} {size : Nat}
    {table final : PageTable} {result : Option (Nat × Nat)}
    (step : Allocates kind buffer fits size table result final) (indexed : table.Indexed)
    (positive : 0 < kind.nrPages) : final.Indexed := by
  have kept (idx : Nat) (selected : table.mediumBufferPage = some idx) :
      ∃ page, final.slot idx = some page ∧ page.kind = .medium := by
    obtain ⟨page, found, isMedium⟩ := indexed.medium selected
    obtain ⟨later, there, same, _⟩ := step.keeps indexed positive found
    exact ⟨later, there, same.trans isMedium⟩
  cases step with
  | full => exact indexed
  | @bump served page _ found =>
      refine ⟨?_, ?_, ?_, fun {idx} selected => kept idx selected⟩
      · simpa [PageTable.bumped, setPage] using indexed.length
      · intro idx later there
        rw [slot_bumped found] at there
        split at there
        · cases there
          have nonempty : 0 < page.nrPages := indexed.nonempty found
          exact nonempty
        · exact indexed.nonempty there
      · intro idx later there
        rw [slot_bumped found] at there
        split at there
        · next same =>
            rw [same]
            exact indexed.below found
        · exact indexed.below there
  | fresh _ available _ _ =>
      have bound : table.currentBasePage < table.pageTable.length := by
        rw [indexed.length]
        omega
      refine ⟨?_, ?_, ?_, ?_⟩
      · simpa [PageTable.opened] using indexed.length
      · intro idx later there
        rw [slot_opened bound] at there
        split at there
        · cases there
          exact positive
        · exact indexed.nonempty there
      · intro idx later there
        rw [slot_opened bound] at there
        split at there
        · next same => simpa [same] using positive
        · exact Nat.lt_of_lt_of_le (indexed.below there) (Nat.le_add_right _ _)
      · intro idx selected
        by_cases isMedium : kind = .medium
        · simp only [PageTable.opened, if_pos isMedium, Option.some.injEq] at selected
          subst selected
          exact ⟨_, (slot_opened bound kind size _).trans (if_pos rfl), isMedium⟩
        · simp only [PageTable.opened, if_neg isMedium] at selected
          exact kept idx selected

theorem Allocates.serves {kind : FlexPageKind} {buffer : Option Nat} {fits : FlexPage → Prop} {size : Nat}
    {table final : PageTable} {ptr idx : Nat}
    (step : Allocates kind buffer fits size table (some (ptr, idx)) final) (placed : table.Placed)
    (positive : 0 < kind.nrPages) :
    ∃ page, final.slot idx = some page ∧ page.start + page.usedBytes = ptr + size ∧ page.start ≤ ptr ∧
      (∀ {old}, table.slot idx = some old → old.start + old.usedBytes = ptr) := by
  cases step with
  | @bump _ old _ there =>
      refine ⟨_, (slot_bumped there size idx).trans (if_pos rfl), ?_, Nat.le_add_right _ _, ?_⟩
      · exact (Nat.add_assoc _ _ _).symm
      · intro old' found
        rw [there] at found
        cases found
        rfl
  | fresh _ available _ _ =>
      have bound : table.currentBasePage < table.pageTable.length := by
        rw [placed.length]
        omega
      refine ⟨_, (slot_opened bound kind size _).trans (if_pos rfl), rfl, Nat.le_refl _, ?_⟩
      -- The slot at the cursor was empty.
      intro old found
      have within := placed.within found
      have nonempty := placed.nonempty found
      omega

theorem Allocates.others {kind : FlexPageKind} {buffer : Option Nat} {fits : FlexPage → Prop} {size : Nat}
    {table final : PageTable} {ptr idx : Nat}
    (step : Allocates kind buffer fits size table (some (ptr, idx)) final) (placed : table.Placed)
    (positive : 0 < kind.nrPages) {other : Nat} (different : other ≠ idx) :
    final.slot other = table.slot other := by
  cases step with
  | bump _ there => rw [slot_bumped there, if_neg different]
  | fresh _ available =>
      have bound : table.currentBasePage < table.pageTable.length := by
        rw [placed.length]
        omega
      rw [slot_opened bound, if_neg different]

theorem Allocates.frame {kind : FlexPageKind} {buffer : Option Nat} {fits : FlexPage → Prop} {size : Nat}
    {table final : PageTable} {result : Option (Nat × Nat)}
    (step : Allocates kind buffer fits size table result final) :
    final.baseAddr = table.baseAddr ∧ final.nrPages = table.nrPages ∧
      table.currentBasePage ≤ final.currentBasePage := by
  cases step with
  | full => exact ⟨rfl, rfl, Nat.le_refl _⟩
  | bump => exact ⟨rfl, rfl, Nat.le_refl _⟩
  | fresh => exact ⟨rfl, rfl, Nat.le_add_right _ _⟩

/-- Every bump pointer is a multiple of 8 past the start of its page. -/
def Aligned (table : PageTable) : Prop :=
  ∀ {idx page}, table.slot idx = some page → page.usedBytes % 8 = 0

theorem Allocates.aligned {kind : FlexPageKind} {buffer : Option Nat} {fits : FlexPage → Prop} {size : Nat}
    {table final : PageTable} {result : Option (Nat × Nat)}
    (step : Allocates kind buffer fits size table result final) (placed : table.Placed)
    (aligned : table.Aligned) (positive : 0 < kind.nrPages) (multiple : size % 8 = 0) : final.Aligned := by
  cases step with
  | full => exact aligned
  | @bump served old _ there =>
      intro idx page found
      rw [slot_bumped there] at found
      split at found
      · cases found
        have := aligned there
        change (old.usedBytes + size) % 8 = 0
        omega
      · exact aligned found
  | fresh _ available _ _ =>
      have bound : table.currentBasePage < table.pageTable.length := by
        rw [placed.length]
        omega
      intro idx page found
      rw [slot_opened bound] at found
      split at found
      · cases found
        exact multiple
      · exact aligned found

/-- A `None` changes nothing, and leaves no room behind it. -/
theorem Allocates.none_unchanged {kind : FlexPageKind} {buffer : Option Nat} {fits : FlexPage → Prop}
    {size : Nat} {table final : PageTable} (step : Allocates kind buffer fits size table none final) :
    final = table := by
  cases step
  rfl

theorem Allocates.exists {kind : FlexPageKind} {buffer : Option Nat} {fits : FlexPage → Prop} {size : Nat}
    {table : PageTable} (nonnull : table.baseAddr ≠ 0) (free : size ≤ kind.nrPages * basePageSize)
    (present : ∀ {idx}, buffer = some idx → ∃ page, table.slot idx = some page)
    (enough : ∀ {page}, fits page → size ≤ page.free) :
    ∃ result final, Allocates kind buffer fits size table result final := by
  have fallback (noRoom : ∀ {idx page}, buffer = some idx → table.slot idx = some page → ¬ fits page) :
      ∃ result final, Allocates kind buffer fits size table result final := by
    by_cases available : table.currentBasePage + kind.nrPages ≤ table.nrPages
    · exact ⟨_, _, .fresh noRoom available (by omega) free⟩
    · exact ⟨_, _, .full noRoom (Nat.lt_of_not_le available)⟩
  cases selected : buffer with
  | none =>
      subst selected
      exact fallback (by simp)
  | some idx =>
      subst selected
      obtain ⟨page, found⟩ := present rfl
      by_cases room : fits page
      · exact ⟨_, _, .bump rfl found room (enough room)⟩
      · refine fallback ?_
        intro other there same at_other
        cases same
        rw [found] at at_other
        cases at_other
        exact room

end PageTable

/-- `size.div_ceil(BASE_PAGE_SIZE)` base pages hold `size` bytes. -/
theorem le_divCeil_mul (size : Nat) : size ≤ PageTable.divCeil size basePageSize * basePageSize := by
  simp only [PageTable.divCeil, basePageSize_eq]
  omega

theorem divCeil_pos {size : Nat} (large : FlexPageKind.medium.maxObjectSize ≤ size) :
    0 < PageTable.divCeil size basePageSize := by
  rw [FlexPageKind.maxObjectSize_medium] at large
  simp only [PageTable.divCeil, basePageSize_eq]
  omega

theorem sizeClass_nrPages_pos (size : Nat) : 0 < (sizeClass size).nrPages := by
  unfold sizeClass
  split
  · simp
  · split
    · simp
    · next large =>
        rw [FlexPageKind.nrPages_huge]
        exact divCeil_pos (Nat.not_lt.mp large)

theorem sizeClass_free (size : Nat) : size ≤ (sizeClass size).nrPages * basePageSize := by
  unfold sizeClass
  split
  · next small =>
      rw [FlexPageKind.maxObjectSize_small] at small
      rw [FlexPageKind.nrPages_small, basePageSize_eq]
      omega
  · split
    · next medium =>
        rw [FlexPageKind.maxObjectSize_medium] at medium
        rw [FlexPageKind.nrPages_medium, basePageSize_eq]
        omega
    · rw [FlexPageKind.nrPages_huge]
      exact le_divCeil_mul size

namespace PageTable

/-- The class of a direct `PageTable::alloc`: it has no small pages. -/
def directClass (size : Nat) : FlexPageKind :=
  if size < FlexPageKind.medium.maxObjectSize then .medium
  else .huge (divCeil size basePageSize)

theorem bumped_opened {table : PageTable} (kind : FlexPageKind) (size : Nat) :
    (table.opened kind 0).bumped table.currentBasePage
        ⟨kind, table.baseAddr + table.currentBasePage * basePageSize, 0⟩ size =
      table.opened kind size := by
  simp [PageTable.opened, PageTable.bumped, setPage]

theorem refillMedium_eq_ok {table final : PageTable} {result : Option Nat}
    (length : table.pageTable.length = table.nrPages) :
    table.refillMedium = .ok (result, final) ↔
      (table.nrPages < table.currentBasePage + 4 ∧ result = none ∧ final = table) ∨
      (table.currentBasePage + 4 ≤ table.nrPages ∧
        table.baseAddr + table.currentBasePage * basePageSize ≠ 0 ∧
        result = some table.currentBasePage ∧ final = table.opened .medium 0) := by
  have positive : 0 < FlexPageKind.medium.nrPages := by simp
  simp only [refillMedium, tryThen_eq_ok, allocPage_eq_ok length positive, FlexPageKind.nrPages_medium,
    Except.ok.injEq, Prod.mk.injEq]
  constructor
  · rintro (⟨⟨exhausted, -, rfl⟩ | ⟨_, _, noResult, _⟩, rfl⟩ | ⟨idx, grown, opened, rfl, rfl⟩)
    · exact .inl ⟨exhausted, rfl, rfl⟩
    · cases noResult
    · rcases opened with ⟨_, noIndex, _⟩ | ⟨available, nonnull, index, rfl⟩
      · cases noIndex
      · cases index
        exact .inr ⟨available, nonnull, rfl, by simp [PageTable.opened]⟩
  · rintro (⟨exhausted, rfl, rfl⟩ | ⟨available, nonnull, rfl, rfl⟩)
    · exact .inl ⟨.inl ⟨exhausted, trivial, rfl⟩, rfl⟩
    · exact .inr ⟨_, _, .inr ⟨available, nonnull, rfl, rfl⟩, rfl, by simp [PageTable.opened]⟩

theorem freeIn_opened {table : PageTable} (bound : table.currentBasePage < table.pageTable.length)
    (kind : FlexPageKind) :
    (table.opened kind 0).freeIn table.currentBasePage = .ok (kind.nrPages * basePageSize) := by
  rw [freeIn_eq_ok]
  refine ⟨_, (slot_opened bound kind 0 _).trans (if_pos rfl), ?_⟩
  simp [FlexPage.free, FlexPage.size, FlexPage.used]

theorem allocIn_opened {table : PageTable} (bound : table.currentBasePage < table.pageTable.length)
    {kind : FlexPageKind} {size : Nat} (free : size ≤ kind.nrPages * basePageSize) :
    (table.opened kind 0).allocIn table.currentBasePage size =
      .ok (some (table.baseAddr + table.currentBasePage * basePageSize, table.currentBasePage),
        table.opened kind size) := by
  have found := (slot_opened bound kind 0 table.currentBasePage).trans (if_pos rfl)
  refine allocIn_eq_ok.mpr ⟨_, found, ?_, ?_, (bumped_opened kind size).symm⟩
  · simp only [FlexPage.free, FlexPage.size, FlexPage.used, Nat.sub_zero]
    exact free
  · rw [Nat.add_zero]

/-- The buffer page a direct `PageTable::alloc` bumps. -/
def directBuffer (table : PageTable) (size : Nat) : Option Nat :=
  if size < FlexPageKind.medium.maxObjectSize then table.mediumBufferPage else none

private theorem allocHuge_eq_ok {table final : PageTable} {size count : Nat} {result : Option (Nat × Nat)}
    (length : table.pageTable.length = table.nrPages) (positive : 0 < count)
    (free : size ≤ count * basePageSize) :
    tryThen (table.allocPage (.huge count)) (fun pageId table => table.allocIn pageId size) =
        .ok (result, final) ↔
      Allocates (.huge count) none (fun page => size ≤ page.free) size table result final := by
  have same (table : PageTable) : ({ table.opened (.huge count) 0 with
      mediumBufferPage := table.mediumBufferPage } : PageTable) = table.opened (.huge count) 0 := by
    simp [PageTable.opened]
  have pages : (FlexPageKind.huge count).nrPages = count := FlexPageKind.nrPages_huge count
  have page := @allocPage_eq_ok table
  simp only [tryThen_eq_ok, allocPage_eq_ok length (pages ▸ positive), same]
  constructor
  · rintro (⟨⟨exhausted, -, rfl⟩ | ⟨_, _, noIndex, _⟩, rfl⟩ | ⟨idx, grown, taken, allocated⟩)
    · exact .full (by simp) exhausted
    · cases noIndex
    · rcases taken with ⟨_, noIndex, _⟩ | ⟨available, nonnull, index, rfl⟩
      · cases noIndex
      · cases index
        have bound : table.currentBasePage < table.pageTable.length := by omega
        rw [allocIn_opened bound (pages.symm ▸ free)] at allocated
        cases allocated
        exact .fresh (by simp) available nonnull (pages.symm ▸ free)
  · intro step
    cases step with
    | full _ exhausted => exact .inl ⟨.inl ⟨exhausted, trivial, rfl⟩, rfl⟩
    | bump selected => cases selected
    | fresh _ available nonnull _ =>
        have bound : table.currentBasePage < table.pageTable.length := by omega
        exact .inr ⟨_, _, .inr ⟨available, nonnull, rfl, rfl⟩, allocIn_opened bound (pages.symm ▸ free)⟩

private theorem allocInBuffer_opened {table : PageTable} {size : Nat}
    (bound : table.currentBasePage < table.pageTable.length)
    (free : size ≤ FlexPageKind.medium.nrPages * basePageSize) :
    (table.opened .medium 0).allocInBuffer table.currentBasePage size =
      .ok (some (table.baseAddr + table.currentBasePage * basePageSize, table.currentBasePage),
        table.opened .medium size) := by
  have room := freeIn_opened bound .medium
  have served := allocIn_opened bound free
  simp only [allocInBuffer, room, bind, Except.bind, if_neg (Nat.not_lt.mpr free), tryThen_some, assert,
    ge_iff_le, free, decide_true, ↓reduceIte, served]

private theorem allocInBuffer_eq_ok {table final : PageTable} {size idx : Nat} {page : FlexPage}
    {result : Option (Nat × Nat)} (length : table.pageTable.length = table.nrPages)
    (selected : table.mediumBufferPage = some idx) (found : table.slot idx = some page)
    (free : size ≤ FlexPageKind.medium.nrPages * basePageSize) :
    table.allocInBuffer idx size = .ok (result, final) ↔
      Allocates .medium table.mediumBufferPage (fun page => size ≤ page.free) size table result final := by
  have room : table.freeIn idx = .ok page.free := freeIn_eq_ok.mpr ⟨page, found, rfl⟩
  have sole {other : Nat} {there : FlexPage} (buffer : table.mediumBufferPage = some other)
      (at_other : table.slot other = some there) : there = page := by
    rw [selected] at buffer
    cases buffer
    exact Option.some.inj (at_other.symm.trans found)
  by_cases fits : size ≤ page.free
  · have served : table.allocIn idx size =
        .ok (some (page.start + page.usedBytes, idx), table.bumped idx page size) :=
      allocIn_eq_ok.mpr ⟨page, found, fits, rfl, rfl⟩
    simp only [allocInBuffer, room, bind, Except.bind, if_neg (Nat.not_lt.mpr fits), tryThen_some, assert,
      ge_iff_le, fits, decide_true, ↓reduceIte, served]
    constructor
    · intro returned
      cases returned
      exact .bump selected found fits fits
    · intro step
      cases step with
      | full noRoom => exact absurd fits (noRoom selected found)
      | fresh noRoom => exact absurd fits (noRoom selected found)
      | bump buffer there =>
          rw [selected] at buffer
          cases buffer
          rw [found] at there
          cases there
          rfl
  · have noRoom {other : Nat} {there : FlexPage} (buffer : table.mediumBufferPage = some other)
        (at_other : table.slot other = some there) : ¬ size ≤ there.free := by
      rw [sole buffer at_other]
      exact fits
    simp only [allocInBuffer, room, bind, Except.bind, if_pos (Nat.lt_of_not_le fits), tryThen_eq_ok,
      refillMedium_eq_ok length]
    constructor
    · rintro (⟨⟨exhausted, -, rfl⟩ | ⟨_, _, noIndex, _⟩, rfl⟩ | ⟨index, grown, taken, allocated⟩)
      · exact .full noRoom exhausted
      · cases noIndex
      · rcases taken with ⟨_, noIndex, _⟩ | ⟨available, nonnull, same, rfl⟩
        · cases noIndex
        · cases same
          have bound : table.currentBasePage < table.pageTable.length := by omega
          have opened := allocInBuffer_opened bound free
          simp only [allocInBuffer, freeIn_opened bound, bind, Except.bind,
            if_neg (Nat.not_lt.mpr free), tryThen_some] at opened
          rw [freeIn_opened bound] at allocated
          rw [opened] at allocated
          cases allocated
          exact .fresh noRoom available nonnull free
    · intro step
      cases step with
      | full _ exhausted => exact .inl ⟨.inl ⟨exhausted, trivial, rfl⟩, rfl⟩
      | bump buffer there room => exact absurd room (noRoom buffer there)
      | fresh _ available nonnull _ =>
          rw [FlexPageKind.nrPages_medium] at available
          have bound : table.currentBasePage < table.pageTable.length := by omega
          refine .inr ⟨_, _, .inr ⟨available, nonnull, rfl, rfl⟩, ?_⟩
          have opened := allocInBuffer_opened bound free
          simpa only [allocInBuffer, freeIn_opened bound, bind, Except.bind,
            if_neg (Nat.not_lt.mpr free), tryThen_some] using opened

private theorem allocMedium_eq_ok {table final : PageTable} {size : Nat} {result : Option (Nat × Nat)}
    (slotted : table.Slotted) (free : size ≤ FlexPageKind.medium.nrPages * basePageSize) :
    tryThen (match table.mediumBufferPage with
        | some bufId => .ok (some bufId, table)
        | none => table.refillMedium) (fun bufId table => table.allocInBuffer bufId size) =
        .ok (result, final) ↔
      Allocates .medium table.mediumBufferPage (fun page => size ≤ page.free) size table result final := by
  cases selected : table.mediumBufferPage with
  | some idx =>
      obtain ⟨page, found, _⟩ := slotted.medium selected
      rw [tryThen_some, allocInBuffer_eq_ok slotted.length selected found free, selected]
  | none =>
      simp only [tryThen_eq_ok, refillMedium_eq_ok slotted.length]
      constructor
      · rintro (⟨⟨exhausted, -, rfl⟩ | ⟨_, _, noIndex, _⟩, rfl⟩ | ⟨index, grown, taken, allocated⟩)
        · exact .full (by simp) exhausted
        · cases noIndex
        · rcases taken with ⟨_, noIndex, _⟩ | ⟨available, nonnull, same, rfl⟩
          · cases noIndex
          · cases same
            have bound : table.currentBasePage < table.pageTable.length := by
              rw [slotted.length]
              omega
            rw [allocInBuffer_opened bound free] at allocated
            cases allocated
            exact .fresh (by simp) available nonnull free
      · intro step
        cases step with
        | full _ exhausted => exact .inl ⟨.inl ⟨exhausted, trivial, rfl⟩, rfl⟩
        | bump buffer => cases buffer
        | fresh _ available nonnull _ =>
            rw [FlexPageKind.nrPages_medium] at available
            have bound : table.currentBasePage < table.pageTable.length := by
              rw [slotted.length]
              omega
            exact .inr ⟨_, _, .inr ⟨available, nonnull, rfl, rfl⟩, allocInBuffer_opened bound free⟩

/-- A direct `PageTable::alloc` returns exactly what its page class allows. -/
theorem alloc_eq_ok {table final : PageTable} {size : Nat} {result : Option (Nat × Nat)}
    (slotted : table.Slotted) :
    table.alloc size = .ok (result, final) ↔
      size % 8 = 0 ∧ Allocates (directClass size) (table.directBuffer size) (fun page => size ≤ page.free)
        size table result final := by
  simp only [alloc, bind_eq_ok, assert_eq_ok, decide_eq_true_eq, exists_const]
  refine and_congr_right fun _ => ?_
  by_cases large : size ≥ FlexPageKind.medium.maxObjectSize
  · rw [if_pos large, directClass, directBuffer, if_neg (Nat.not_lt.mpr large), if_neg (Nat.not_lt.mpr large)]
    exact allocHuge_eq_ok slotted.length (divCeil_pos large) (le_divCeil_mul size)
  · have below : size < FlexPageKind.medium.maxObjectSize := Nat.lt_of_not_le large
    have free : size ≤ FlexPageKind.medium.nrPages * basePageSize := by
      rw [FlexPageKind.maxObjectSize_medium] at below
      rw [FlexPageKind.nrPages_medium, basePageSize_eq]
      omega
    rw [if_neg large, directClass, directBuffer, if_pos below, if_pos below]
    exact allocMedium_eq_ok slotted free

theorem directClass_free (size : Nat) : size ≤ (directClass size).nrPages * basePageSize := by
  unfold directClass
  split
  · next medium =>
      rw [FlexPageKind.maxObjectSize_medium] at medium
      rw [FlexPageKind.nrPages_medium, basePageSize_eq]
      omega
  · rw [FlexPageKind.nrPages_huge]
    exact le_divCeil_mul size

theorem Indexed.directBuffer {table : PageTable} (indexed : table.Indexed) {size idx : Nat}
    (selected : table.directBuffer size = some idx) : ∃ page, table.slot idx = some page := by
  unfold PageTable.directBuffer at selected
  split at selected
  · obtain ⟨page, found, _⟩ := indexed.medium selected
    exact ⟨page, found⟩
  · cases selected

theorem direct_allocates {table : PageTable} (indexed : table.Indexed) (nonnull : table.baseAddr ≠ 0)
    (size : Nat) : ∃ result final, Allocates (directClass size) (table.directBuffer size)
      (fun page => size ≤ page.free) size table result final :=
  Allocates.exists nonnull (directClass_free size) indexed.directBuffer id

end PageTable

end UwUGC
