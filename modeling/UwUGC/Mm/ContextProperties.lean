import UwUGC.Mm.PageTableProperties

/-! What one call of `alloc_from_page_table` can do, for a context whose cached
index belongs to the table it is used with. -/

set_option autoImplicit false

namespace UwUGC.Mm.Context

open PageTable

/-- The cached index names a small page of the table. -/
def Fits (context : Context) (table : PageTable) : Prop :=
  ∀ idx, context.localBufferPage = some idx → ∃ page, table.slot idx = some page ∧ page.kind = .small

/-- The cached index names a page of the table. -/
def Present (context : Context) (table : PageTable) : Prop :=
  ∀ idx, context.localBufferPage = some idx → ∃ page, table.slot idx = some page

/-- The page a call of this size bumps if it has room. -/
def buffer (context : Context) (table : PageTable) (size : Nat) : Option Nat :=
  if size < FlexPageKind.small.maxObjectSize then context.localBufferPage else table.directBuffer size

/-- The room test of the path that serves a size: strict for the local page. -/
def hasRoom (size : Nat) (page : FlexPage) : Prop :=
  if size < FlexPageKind.small.maxObjectSize then size < page.free else size ≤ page.free

/-- The context after a call: the local path remembers the page it served from. -/
def after (context : Context) (size : Nat) (result : Option (Nat × Nat)) : Context :=
  if size < FlexPageKind.small.maxObjectSize then
    match result with
    | some (_, idx) => { localBufferPage := some idx }
    | none => context
  else context

@[simp] theorem after_none (context : Context) (size : Nat) : context.after size none = context := by
  simp only [after, ite_self]

theorem after_small (context : Context) {size : Nat} (small : size < FlexPageKind.small.maxObjectSize)
    (ptr idx : Nat) : context.after size (some (ptr, idx)) = ⟨some idx⟩ := by
  simp only [after, if_pos small]

theorem after_large (context : Context) {size : Nat} (large : ¬ size < FlexPageKind.small.maxObjectSize)
    (result : Option (Nat × Nat)) : context.after size result = context := by
  simp only [after, if_neg large]

theorem Fits.new (table : PageTable) : Context.new.Fits table := by
  intro idx selected
  cases selected

theorem refillSmall_eq_ok {context context' : Context} {table final : PageTable} {result : Option Nat}
    (length : table.pageTable.length = table.nrPages) :
    context.refillSmall table = .ok (result, context', final) ↔
      (table.nrPages < table.currentBasePage + 1 ∧ result = none ∧ context' = context ∧ final = table) ∨
      (table.currentBasePage + 1 ≤ table.nrPages ∧
        table.baseAddr + table.currentBasePage * basePageSize ≠ 0 ∧
        result = some table.currentBasePage ∧ context' = ⟨some table.currentBasePage⟩ ∧
        final = table.opened .small 0) := by
  have positive : 0 < FlexPageKind.small.nrPages := by simp
  have same : ({ table.opened .small 0 with mediumBufferPage := table.mediumBufferPage } : PageTable) =
      table.opened .small 0 := by
    simp [PageTable.opened]
  simp only [refillSmall, bind_eq_ok, Prod.exists, allocPage_eq_ok length positive,
    FlexPageKind.nrPages_small, same]
  constructor
  · rintro ⟨index, grown, ⟨exhausted, rfl, rfl⟩ | ⟨available, nonnull, rfl, rfl⟩, returned⟩
    · cases returned
      exact .inl ⟨exhausted, rfl, rfl, rfl⟩
    · cases returned
      exact .inr ⟨available, nonnull, rfl, rfl, rfl⟩
  · rintro (⟨exhausted, rfl, rfl, rfl⟩ | ⟨available, nonnull, rfl, rfl, rfl⟩)
    · exact ⟨_, _, .inl ⟨exhausted, rfl, rfl⟩, rfl⟩
    · exact ⟨_, _, .inr ⟨available, nonnull, rfl, rfl⟩, rfl⟩

private theorem allocInBuffer_opened {table : PageTable} {size : Nat}
    (bound : table.currentBasePage < table.pageTable.length) (small : size < FlexPageKind.small.maxObjectSize) :
    allocInBuffer ⟨some table.currentBasePage⟩ (table.opened .small 0) table.currentBasePage size =
      .ok (some (table.baseAddr + table.currentBasePage * basePageSize, table.currentBasePage),
        ⟨some table.currentBasePage⟩, table.opened .small size) := by
  have strict : size < FlexPageKind.small.nrPages * basePageSize := by
    rw [FlexPageKind.maxObjectSize_small] at small
    rw [FlexPageKind.nrPages_small, basePageSize_eq]
    omega
  have room := freeIn_opened bound .small
  have served := allocIn_opened bound (Nat.le_of_lt strict)
  simp only [allocInBuffer, room, bind, Except.bind, ge_iff_le, if_neg (Nat.not_le.mpr strict),
    tryThen_some, served]

private theorem allocInBuffer_eq_ok {context context' : Context} {table final : PageTable}
    {size idx : Nat} {page : FlexPage} {result : Option (Nat × Nat)}
    (length : table.pageTable.length = table.nrPages) (selected : context.localBufferPage = some idx)
    (found : table.slot idx = some page) (small : size < FlexPageKind.small.maxObjectSize) :
    context.allocInBuffer table idx size = .ok (result, context', final) ↔
      Allocates .small context.localBufferPage (fun page => size < page.free) size table result final ∧
        context' = context.after size result := by
  have strict : size ≤ FlexPageKind.small.nrPages * basePageSize := by
    rw [FlexPageKind.maxObjectSize_small] at small
    rw [FlexPageKind.nrPages_small, basePageSize_eq]
    omega
  have room : table.freeIn idx = .ok page.free := freeIn_eq_ok.mpr ⟨page, found, rfl⟩
  have sole {other : Nat} {there : FlexPage} (buffer : context.localBufferPage = some other)
      (at_other : table.slot other = some there) : there = page := by
    rw [selected] at buffer
    cases buffer
    exact Option.some.inj (at_other.symm.trans found)
  have itself : (⟨some idx⟩ : Context) = context := by
    rw [← selected]
  by_cases fits : size < page.free
  · have served : table.allocIn idx size =
        .ok (some (page.start + page.usedBytes, idx), table.bumped idx page size) :=
      allocIn_eq_ok.mpr ⟨page, found, Nat.le_of_lt fits, rfl, rfl⟩
    simp only [allocInBuffer, room, bind, Except.bind, ge_iff_le, if_neg (Nat.not_le.mpr fits),
      tryThen_some, served]
    constructor
    · intro returned
      cases returned
      exact ⟨.bump selected found fits (Nat.le_of_lt fits), by rw [after_small context small, itself]⟩
    · rintro ⟨step, rfl⟩
      cases step with
      | full noRoom => exact absurd fits (noRoom selected found)
      | fresh noRoom => exact absurd fits (noRoom selected found)
      | bump buffer there =>
          rw [selected] at buffer
          cases buffer
          rw [found] at there
          cases there
          rw [after_small context small, itself]
  · have noRoom {other : Nat} {there : FlexPage} (buffer : context.localBufferPage = some other)
        (at_other : table.slot other = some there) : ¬ size < there.free := by
      rw [sole buffer at_other]
      exact fits
    have opened (bound : table.currentBasePage < table.pageTable.length) := allocInBuffer_opened bound small
    simp only [allocInBuffer, room, bind, Except.bind, ge_iff_le, if_pos (Nat.not_lt.mp fits),
      tryThen_eq_ok, Prod.exists, refillSmall_eq_ok length]
    constructor
    · rintro (⟨⟨exhausted, -, rfl, rfl⟩ | ⟨_, _, noIndex, _⟩, rfl⟩ | ⟨index, moved, grown, taken, allocated⟩)
      · exact ⟨.full noRoom exhausted, (after_none _ size).symm⟩
      · cases noIndex
      · rcases taken with ⟨_, noIndex, _⟩ | ⟨available, nonnull, same, rfl, rfl⟩
        · cases noIndex
        · cases same
          have bound : table.currentBasePage < table.pageTable.length := by omega
          rw [allocIn_opened bound strict] at allocated
          cases allocated
          exact ⟨.fresh noRoom available nonnull strict, (after_small context small _ _).symm⟩
    · rintro ⟨step, rfl⟩
      cases step with
      | full _ exhausted => exact .inl ⟨.inl ⟨exhausted, trivial, (after_none context size), rfl⟩, rfl⟩
      | bump buffer there room => exact absurd room (noRoom buffer there)
      | fresh _ available nonnull _ =>
          rw [FlexPageKind.nrPages_small] at available
          have bound : table.currentBasePage < table.pageTable.length := by omega
          refine .inr ⟨_, _, _, .inr ⟨available, nonnull, rfl, rfl, rfl⟩, ?_⟩
          simp only [allocIn_opened bound strict, after_small context small]

private theorem allocSmall_eq_ok {context context' : Context} {table final : PageTable} {size : Nat}
    {result : Option (Nat × Nat)} (indexed : table.Indexed) (present : context.Present table)
    (small : size < FlexPageKind.small.maxObjectSize) :
    tryThen (match context.localBufferPage with
        | some idx => .ok (some idx, context, table)
        | none => context.refillSmall table)
        (fun idx (context, table) => context.allocInBuffer table idx size) = .ok (result, context', final) ↔
      Allocates .small context.localBufferPage (fun page => size < page.free) size table result final ∧
        context' = context.after size result := by
  cases selected : context.localBufferPage with
  | some idx =>
      obtain ⟨page, found⟩ := present idx selected
      rw [tryThen_some, ← selected]
      exact allocInBuffer_eq_ok indexed.length selected found small
  | none =>
      simp only [tryThen_eq_ok, Prod.exists, refillSmall_eq_ok indexed.length]
      constructor
      · rintro (⟨⟨exhausted, -, rfl, rfl⟩ | ⟨_, _, noIndex, _⟩, rfl⟩ | ⟨index, moved, grown, taken, allocated⟩)
        · exact ⟨.full (by simp) exhausted, (after_none _ size).symm⟩
        · cases noIndex
        · rcases taken with ⟨_, noIndex, _⟩ | ⟨available, nonnull, same, rfl, rfl⟩
          · cases noIndex
          · cases same
            have bound : table.currentBasePage < table.pageTable.length := by
              rw [indexed.length]
              omega
            rw [allocInBuffer_opened bound small] at allocated
            cases allocated
            exact ⟨.fresh (by simp) available nonnull (by
              rw [FlexPageKind.maxObjectSize_small] at small
              rw [FlexPageKind.nrPages_small, basePageSize_eq]
              omega), (after_small context small _ _).symm⟩
      · rintro ⟨step, rfl⟩
        cases step with
        | full _ exhausted => exact .inl ⟨.inl ⟨exhausted, trivial, (after_none context size), rfl⟩, rfl⟩
        | bump buffer => cases buffer
        | fresh _ available nonnull _ =>
            rw [FlexPageKind.nrPages_small] at available
            have bound : table.currentBasePage < table.pageTable.length := by
              rw [indexed.length]
              omega
            refine .inr ⟨_, _, _, .inr ⟨available, nonnull, rfl, rfl, rfl⟩, ?_⟩
            simp only [allocInBuffer_opened bound small, after_small context small]

/-- A call returns exactly what the page class of its size allows, where the page of its context is there. -/
theorem allocFromPageTable_present {context context' : Context} {table final : PageTable} {size : Nat}
    {result : Option (Nat × Nat)} (indexed : table.Indexed)
    (present : size < FlexPageKind.small.maxObjectSize → context.Present table) :
    context.allocFromPageTable table size = .ok (result, context', final) ↔
      size % 8 = 0 ∧
        Allocates (sizeClass size) (context.buffer table size) (hasRoom size) size table result final ∧
        context' = context.after size result := by
  simp only [allocFromPageTable, bind_eq_ok, assert_eq_ok, decide_eq_true_eq, exists_const]
  refine and_congr_right fun multiple => ?_
  by_cases small : size < FlexPageKind.small.maxObjectSize
  · have room : hasRoom size = fun page => size < page.free := by
      funext page
      rw [hasRoom, if_pos small]
    rw [if_neg (Nat.not_le.mpr small), sizeClass, if_pos small, buffer, if_pos small, room]
    exact allocSmall_eq_ok indexed (present small) small
  · have large : size ≥ FlexPageKind.small.maxObjectSize := Nat.not_lt.mp small
    have room : hasRoom size = fun page => size ≤ page.free := by
      funext page
      rw [hasRoom, if_neg small]
    have sameClass : sizeClass size = directClass size := by
      rw [sizeClass, if_neg small, directClass]
    have kept := context.after_large small result
    rw [if_pos large, sameClass, buffer, if_neg small, room, kept]
    simp only [bind_eq_ok, Prod.exists, Except.ok.injEq, Prod.mk.injEq, alloc_eq_ok indexed.slotted]
    constructor
    · rintro ⟨_, _, ⟨_, step⟩, rfl, rfl, rfl⟩
      exact ⟨step, rfl⟩
    · rintro ⟨step, rfl⟩
      exact ⟨_, _, ⟨multiple, step⟩, rfl, rfl, rfl⟩

theorem allocFromPageTable_eq_ok {context context' : Context} {table final : PageTable} {size : Nat}
    {result : Option (Nat × Nat)} (indexed : table.Indexed) (fits : context.Fits table) :
    context.allocFromPageTable table size = .ok (result, context', final) ↔
      size % 8 = 0 ∧
        Allocates (sizeClass size) (context.buffer table size) (hasRoom size) size table result final ∧
        context' = context.after size result := by
  refine allocFromPageTable_present indexed fun _ idx selected => ?_
  obtain ⟨page, found, _⟩ := fits idx selected
  exact ⟨page, found⟩

/-- A call that returns has found the page of its context, of whatever kind that is. -/
theorem allocates_of_returned {context context' : Context} {table final : PageTable} {size : Nat}
    {result : Option (Nat × Nat)} (indexed : table.Indexed)
    (returned : context.allocFromPageTable table size = .ok (result, context', final)) :
    size % 8 = 0 ∧ Allocates (sizeClass size) (context.buffer table size) (hasRoom size) size table result final := by
  have present (small : size < FlexPageKind.small.maxObjectSize) : context.Present table := by
    intro idx selected
    simp only [allocFromPageTable, if_neg (Nat.not_le.mpr small), selected, tryThen_some, allocInBuffer, bind_eq_ok,
      freeIn_eq_ok] at returned
    obtain ⟨_, _, _, ⟨page, found, _⟩, _⟩ := returned
    exact ⟨page, found⟩
  obtain ⟨multiple, step, _⟩ := (allocFromPageTable_present indexed present).mp returned
  exact ⟨multiple, step⟩

theorem Fits.keeps {context : Context} {table final : PageTable} (fits : context.Fits table)
    (indexed : table.Indexed) {kind : FlexPageKind} {buffer : Option Nat} {room : FlexPage → Prop} {size : Nat}
    {result : Option (Nat × Nat)} (positive : 0 < kind.nrPages)
    (step : Allocates kind buffer room size table result final) : context.Fits final := by
  intro idx selected
  obtain ⟨page, found, isSmall⟩ := fits idx selected
  obtain ⟨later, there, kept, _, _⟩ := step.keeps indexed positive found
  exact ⟨later, there, kept.trans isSmall⟩

theorem Fits.after {context : Context} {table final : PageTable} (fits : context.Fits table)
    (indexed : table.Indexed) {size : Nat} {result : Option (Nat × Nat)}
    (step : Allocates (sizeClass size) (context.buffer table size) (hasRoom size) size table result final) :
    (context.after size result).Fits final := by
  have kept : context.Fits final := fits.keeps indexed (sizeClass_nrPages_pos size) step
  by_cases small : size < FlexPageKind.small.maxObjectSize
  · cases result with
    | none => rwa [after_none]
    | some served =>
        obtain ⟨ptr, idx⟩ := served
        rw [after_small context small]
        intro other selected
        cases selected
        cases step with
        | @bump _ page selected found =>
            rw [buffer, if_pos small] at selected
            exact kept _ selected
        | fresh _ available _ _ =>
            rw [sizeClass, if_pos small] at available ⊢
            rw [FlexPageKind.nrPages_small] at available
            have bound : table.currentBasePage < table.pageTable.length := by
              rw [indexed.length]
              omega
            exact ⟨_, (slot_opened bound .small size _).trans (if_pos rfl), rfl⟩
  · rwa [after_large context small]

theorem Fits.allocates {context : Context} {table : PageTable} (fits : context.Fits table)
    (indexed : table.Indexed) (nonnull : table.baseAddr ≠ 0) (size : Nat) :
    ∃ result final,
      Allocates (sizeClass size) (context.buffer table size) (hasRoom size) size table result final := by
  refine Allocates.exists nonnull (sizeClass_free size) ?_ ?_
  · intro idx selected
    unfold buffer at selected
    split at selected
    · obtain ⟨page, found, _⟩ := fits idx selected
      exact ⟨page, found⟩
    · exact indexed.directBuffer selected
  · intro page room
    unfold hasRoom at room
    split at room
    · exact Nat.le_of_lt room
    · exact room

/-- Off the null page a request for whole words is answered. -/
theorem Fits.returns {context : Context} {table : PageTable} (fits : context.Fits table) (indexed : table.Indexed)
    (nonnull : table.baseAddr ≠ 0) {size : Nat} (multiple : size % 8 = 0) :
    ∃ result context' final, context.allocFromPageTable table size = .ok (result, context', final) := by
  obtain ⟨result, final, step⟩ := fits.allocates indexed nonnull size
  exact ⟨result, _, final, (allocFromPageTable_eq_ok indexed fits).mpr ⟨multiple, step, rfl⟩⟩

end UwUGC.Mm.Context
