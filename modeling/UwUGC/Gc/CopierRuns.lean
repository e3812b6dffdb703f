import UwUGC.Object.Heap
import UwUGC.Gc.CopierPages

/-! The copier fault by fault. In whatever order the pages of to-space are touched, the pages
that are done hold the images of their objects, and nothing outside of to-space changes. -/

set_option autoImplicit false

namespace UwUGC.Gc.CopierActive

open PageTable

variable {Types : Type} {manager : TypeManager Types} {types : Types} {initial copier : CopierActive}
  {memory later : Memory} {record : RelocationRecord} {idx addr : Nat} {page : FlexPage}

/-- The mapping that the copier fills. -/
def space (copier : CopierActive) : Span := ⟨copier.heap.toSpace, copier.pageTable.nrPages * basePageSize⟩

/-- Each record moves an object that lies outside of to-space. -/
structure Sourced (manager : TypeManager Types) (types : Types) (copier : CopierActive) (memory : Memory) : Prop where
  movable : ∀ record ∈ copier.records, ∃ slots, manager.Movable types memory (copier.source record) record.size slots
  outside : ∀ record ∈ copier.records, (Span.mk (copier.source record) record.size).Separate copier.space

/-- The pointers of all these objects can be updated. -/
def Mapped (manager : TypeManager Types) (types : Types) (copier : CopierActive) (memory : Memory) : Prop :=
  ∀ record ∈ copier.records, ∀ slots, manager.Shape types memory (copier.source record) record.size slots →
    ∀ slot ∈ slots, memory.data (copier.source record) slot ≠ 0 →
      ∃ value, copier.updater (memory.data (copier.source record) slot) = .ok value

/-- How far the copier has got since it had the memory that it started with. -/
structure Progress (manager : TypeManager Types) (types : Types) (initial : CopierActive) (memory : Memory)
    (copier : CopierActive) (later : Memory) : Prop where
  same : ∃ workDone, copier = { initial with workDone }
  laid : copier.Laid
  kept : ∀ address, ¬ initial.space.Contains address → later address = memory address
  built : ∀ idx page, initial.pageTable.slot idx = some page → copier.workDone.bit idx = true →
    ∃ buffer, initial.Builds manager types memory page buffer ∧
      ∀ offset < page.size, later (page.start + offset) = buffer offset

theorem Progress.start (laid : copier.Laid) (fresh : ∀ idx, copier.workDone.bit idx = false) :
    Progress manager types copier memory copier memory where
  same := ⟨copier.workDone, rfl⟩
  laid := laid
  kept := fun _ _ => rfl
  built := by
    intro idx page _ done
    rw [fresh idx] at done
    cases done

theorem Progress.placed (progress : Progress manager types initial memory copier later) :
    initial.pageTable.Placed := by
  obtain ⟨_, rfl⟩ := progress.same
  exact progress.laid.placed

theorem Laid.page_within (laid : copier.Laid) (found : copier.pageTable.slot idx = some page) :
    page.range.Within copier.space := by
  rw [space, ← laid.base]
  exact PageTable.page_within laid.placed found

/-- What is copied depends on the objects that the records move, and on no bitmap. -/
theorem copyRecords_congr {before buffer : Memory} {pageRange : Span} {records : List RelocationRecord}
    {workDone : AtomicBitmap}
    (agree : ∀ record ∈ records, ∀ offset < record.size,
      before (copier.source record + offset) = memory (copier.source record + offset)) :
    copyRecords manager types { copier with workDone } before pageRange records buffer =
      copyRecords manager types copier memory pageRange records buffer := by
  induction records generalizing buffer with
  | nil => rfl
  | cons record rest ih =>
      have words (dest : Nat) : buffer.copy before (copier.source record) dest record.size =
          buffer.copy memory (copier.source record) dest record.size := by
        funext address
        simp only [Memory.copy]
        split
        · next inside =>
            simp only [Span.Contains, Span.stop] at inside
            exact agree record List.mem_cons_self (address - dest) (by omega)
        · rfl
      have first : copyRecord manager types { copier with workDone } before pageRange record buffer =
          copyRecord manager types copier memory pageRange record buffer := by
        simp only [source] at words
        simp only [copyRecord, words]
      simp only [copyRecords, first]
      congr 1
      funext middle
      exact ih fun other member => agree other (List.mem_cons_of_mem _ member)

section Resolve

variable (progress : Progress manager types initial memory copier later)
  (sourced : initial.Sourced manager types memory)

include progress sourced

/-- What is read outside of to-space does not depend on how far the copier has got. -/
theorem Progress.builds_iff {buffer : Memory} :
    copier.Builds manager types later page buffer ↔ initial.Builds manager types memory page buffer := by
  obtain ⟨workDone, rfl⟩ := progress.same
  unfold Builds
  rw [← @copyRecords_congr _ manager types initial memory later _ (initial.pageRange page) (initial.lookup page) workDone]
  · rfl
  · intro record member offset inside
    refine progress.kept _ ((sourced.outside record (lookup_sublist.subset member)).not_contains ?_)
    simp only [Span.Contains, Span.stop]
    omega

omit sourced in
/-- A step that marks one page, and leaves the pages that were done alone. -/
theorem Progress.advance {next : CopierActive} {after : Memory} (marked : copier.Marked idx next) {written : Span}
    (within : written.Within initial.space) (frame : ∀ address, ¬ written.Contains address → after address = later address)
    (apart : ∀ other page, initial.pageTable.slot other = some page → copier.workDone.bit other = true →
      page.range.Separate written ∨ after = later)
    (built : ∀ page, initial.pageTable.slot idx = some page → copier.workDone.bit idx = false →
      ∃ buffer, initial.Builds manager types memory page buffer ∧
        ∀ offset < page.size, after (page.start + offset) = buffer offset) :
    Progress manager types initial memory next after := by
  have laidNext := marked.laid progress.laid
  obtain ⟨workDone, rfl, _, _, bits⟩ := marked
  obtain ⟨old, rfl⟩ := progress.same
  refine ⟨⟨workDone, rfl⟩, laidNext, ?_, ?_⟩
  · intro address outside
    rw [frame address fun inside => outside (within.contains inside)]
    exact progress.kept address outside
  · intro other page found done
    cases before : old.bit other with
    | true =>
        obtain ⟨buffer, builds, holds⟩ := progress.built other page found before
        refine ⟨buffer, builds, ?_⟩
        intro offset inside
        rw [← holds offset inside]
        rcases apart other page found before with separate | same
        · refine frame _ (separate.not_contains ?_)
          simp only [Span.Contains, Span.stop, FlexPage.range]
          omega
        · rw [same]
    | false =>
        have one : other = idx := by
          have set := bits other
          rw [done] at set
          simpa [before] using set
        subst one
        exact built page found before

/-- A fault in a page of to-space: it was done, or it is built now. -/
theorem Progress.fill (found : initial.pageTable.slot idx = some page) (inside : page.range.Contains addr)
    (buildable : copier.workDone.bit idx = false → ∃ buffer, initial.Builds manager types memory page buffer) :
    ∃ after next, copier.resolveFault manager types later addr = .ok (after, next) ∧ copier.Marked idx next ∧
      Progress manager types initial memory next after := by
  have builds (buffer : Memory) := @Progress.builds_iff _ _ _ _ _ _ _ page progress sourced buffer
  obtain ⟨old, rfl⟩ := progress.same
  have laid := progress.laid
  rw [resolveFault_page laid found inside]
  have within : page.range.Within initial.space := laid.page_within found
  cases done : old.bit idx with
  | true =>
      have untouched : ∃ next, doRelocate manager types { initial with workDone := old } later idx page =
          .ok (later, next) ∧ Marked { initial with workDone := old } idx next := doRelocate_done laid found done
      obtain ⟨next, resolved, marked⟩ := untouched
      refine ⟨later, next, resolved, marked, progress.advance marked within (fun _ _ => rfl) ?_ ?_⟩
      · exact fun _ _ _ _ => .inr rfl
      · intro _ _ fresh
        rw [done] at fresh
        cases fresh
  | false =>
      obtain ⟨buffer, built⟩ := buildable done
      have relocated : ∃ next, Marked { initial with workDone := old } idx next ∧
          doRelocate manager types { initial with workDone := old } later idx page = _ :=
        doRelocate_fresh laid found done
      obtain ⟨next, marked, relocated⟩ := relocated
      have copied : copyRecords _ _ _ _ _ _ _ = _ := (builds buffer).mpr built
      refine ⟨later.copy buffer 0 page.start page.size, next, ?_, marked, progress.advance marked within ?_ ?_ ?_⟩
      · rw [relocated, copied]
        rfl
      · exact fun address outside => Memory.copy_outside outside
      · intro other otherPage otherFound otherDone
        have different : other ≠ idx := by
          intro same
          rw [same] at otherDone
          exact absurd otherDone (done ▸ Bool.false_ne_true)
        exact .inl (pages_separate laid.placed otherFound found different)
      · intro page' found' _
        cases found'.symm.trans found
        refine ⟨buffer, built, ?_⟩
        intro offset bound
        rw [Memory.copy_inside bound, Nat.zero_add]

omit sourced in
theorem Progress.zero (inside : initial.space.Contains addr)
    (outside : ∀ idx page, initial.pageTable.slot idx = some page → ¬ page.range.Contains addr) :
    ∃ after next, copier.resolveFault manager types later addr = .ok (after, next) ∧
      copier.Marked ((addr - initial.heap.toSpace) / basePageSize) next ∧
      Progress manager types initial memory next after := by
  obtain ⟨old, rfl⟩ := progress.same
  have laid := progress.laid
  obtain ⟨above, upper⟩ := inside
  simp only [Span.stop, space] at above upper
  generalize same : (addr - initial.heap.toSpace) / basePageSize = pageId
  have size := Nat.div_add_mod (addr - initial.heap.toSpace) basePageSize
  have rest := Nat.mod_lt (addr - initial.heap.toSpace) basePageSize_pos
  rw [same, Nat.mul_comm] at size
  have bounded : pageId < initial.pageTable.nrPages := by
    by_contra beyond
    have := Nat.mul_le_mul_right basePageSize (Nat.le_of_not_lt beyond)
    omega
  rw [resolveFault_zeropage laid above outside]
  have room : pageId < ({ initial with workDone := old } : CopierActive).workDone.len := by
    rw [laid.length]
    exact bounded
  have zeropaged : ∃ after next, doZeropage { initial with workDone := old } later pageId = .ok (after, next) ∧
      Marked { initial with workDone := old } pageId next ∧ (old.bit pageId = true → after = later) ∧
      ∀ address, ¬ (initial.basePage pageId).Contains address → after address = later address :=
    doZeropage_eq_ok laid room
  obtain ⟨after, next, zeroed, marked, _, frame⟩ := zeropaged
  -- No page reaches into the base page of the address.
  have apart (other : Nat) (page : FlexPage) (found : initial.pageTable.slot other = some page) :
      page.range.Separate (initial.basePage pageId) := by
    have start := laid.placed.start found
    have missed := outside other page found
    rw [laid.base] at start
    change page.start = initial.heap.toSpace + other * basePageSize at start
    simp only [Span.Contains, Span.stop, FlexPage.range, FlexPage.size_of_nrPages, start] at missed
    simp only [Span.Separate, Span.stop, FlexPage.range, FlexPage.size_of_nrPages, start, basePage]
    rcases Nat.lt_or_ge pageId other with before | behind
    · have := Nat.mul_le_mul_right basePageSize before
      rw [Nat.succ_mul] at this
      omega
    · have := Nat.mul_le_mul_right basePageSize behind
      have beyond : other + page.nrPages ≤ pageId := by
        by_contra within
        have := Nat.mul_le_mul_right basePageSize (Nat.lt_of_not_le within)
        rw [Nat.succ_mul, Nat.add_mul] at this
        omega
      have := Nat.mul_le_mul_right basePageSize beyond
      rw [Nat.add_mul] at this
      omega
  have within : (initial.basePage pageId).Within initial.space := by
    have := Nat.mul_le_mul_right basePageSize bounded
    rw [Nat.succ_mul] at this
    simp only [Span.Within, Span.stop, basePage, space]
    omega
  rw [same]
  refine ⟨after, next, zeroed, marked, progress.advance marked within frame ?_ ?_⟩
  · exact fun other page found _ => .inl (apart other page found)
  · intro page found
    have start := laid.placed.start found
    have nonempty := laid.placed.nonempty found
    have missed := outside pageId page found
    rw [laid.base] at start
    change page.start = initial.heap.toSpace + pageId * basePageSize at start
    simp only [Span.Contains, Span.stop, FlexPage.range, FlexPage.size_of_nrPages, start] at missed
    have := Nat.le_mul_of_pos_left basePageSize nonempty
    omega

/-- A fault in to-space whose page can be built is resolved, and the page is done afterwards. -/
theorem Progress.resolve (inside : initial.space.Contains addr)
    (buildable : ∀ idx page, initial.pageTable.slot idx = some page → page.range.Contains addr →
      ∃ buffer, initial.Builds manager types memory page buffer) :
    ∃ after next, copier.resolveFault manager types later addr = .ok (after, next) ∧
      Progress manager types initial memory next after ∧
      (∀ other, copier.workDone.bit other = true → next.workDone.bit other = true) ∧
      ∀ idx page, initial.pageTable.slot idx = some page → page.range.Contains addr → next.workDone.bit idx = true := by
  have bits {idx : Nat} {next : CopierActive} (marked : copier.Marked idx next) :
      next.workDone.bit idx = true ∧ ∀ other, copier.workDone.bit other = true → next.workDone.bit other = true := by
    obtain ⟨workDone, rfl, _, _, set⟩ := marked
    exact ⟨by simp [set], fun other done => by simp [set, done]⟩
  by_cases hit : ∃ idx page, initial.pageTable.slot idx = some page ∧ page.range.Contains addr
  · obtain ⟨idx, page, found, inPage⟩ := hit
    obtain ⟨after, next, resolved, marked, progressed⟩ :=
      progress.fill sourced found inPage fun _ => buildable idx page found inPage
    refine ⟨after, next, resolved, progressed, (bits marked).2, ?_⟩
    intro other otherPage otherFound inOther
    have one : other = idx := by
      by_contra different
      exact (pages_separate progress.placed otherFound found different).not_contains inOther inPage
    exact one ▸ (bits marked).1
  · have outside (idx : Nat) (page : FlexPage) (found : initial.pageTable.slot idx = some page) :
        ¬ page.range.Contains addr := fun inPage => hit ⟨idx, page, found, inPage⟩
    obtain ⟨after, next, resolved, marked, progressed⟩ := progress.zero inside outside
    exact ⟨after, next, resolved, progressed, (bits marked).2,
      fun idx page found inPage => absurd inPage (outside idx page found)⟩

theorem Progress.buildable {after : Memory} {next : CopierActive}
    (resolved : copier.resolveFault manager types later addr = .ok (after, next))
    (found : initial.pageTable.slot idx = some page) (inside : page.range.Contains addr) :
    ∃ buffer, initial.Builds manager types memory page buffer := by
  have builds (buffer : Memory) := @Progress.builds_iff _ _ _ _ _ _ _ page progress sourced buffer
  cases done : copier.workDone.bit idx with
  | true =>
      obtain ⟨buffer, built, _⟩ := progress.built idx page found done
      exact ⟨buffer, built⟩
  | false =>
      obtain ⟨old, rfl⟩ := progress.same
      rw [resolveFault_page progress.laid found inside] at resolved
      have relocated : ∃ next, Marked { initial with workDone := old } idx next ∧
          doRelocate manager types { initial with workDone := old } later idx page = _ :=
        doRelocate_fresh progress.laid found done
      obtain ⟨_, _, relocated⟩ := relocated
      rw [relocated] at resolved
      obtain ⟨buffer, built, _⟩ := map_eq_ok.mp resolved
      exact ⟨buffer, (builds buffer).mp built⟩

end Resolve

/-- Once every page is done, every page holds its buffer. -/
theorem Progress.finished (progress : Progress manager types initial memory copier later)
    (done : copier.finished = true) (found : initial.pageTable.slot idx = some page) :
    ∃ buffer, initial.Builds manager types memory page buffer ∧
      ∀ offset < page.size, later (page.start + offset) = buffer offset := by
  have placed := progress.placed
  obtain ⟨workDone, rfl⟩ := progress.same
  have bound : idx < initial.pageTable.nrPages := by
    have top := placed.within found
    have nonempty := placed.nonempty found
    have bounded := placed.bounded
    omega
  have all := List.all_eq_true.mp done idx (List.mem_range.mpr bound)
  simp only [found, Option.isNone_some, Bool.false_or] at all
  exact progress.built idx page found all

section Found

variable {buffer : Memory} (laid : copier.Laid) (found : copier.pageTable.slot idx = some page)
  (holds : ∀ offset < page.size, later (page.start + offset) = buffer offset)
  (within : (copier.target record).Within page.range)

include laid found holds within

theorem Laid.target_word {offset : Nat} (inside : offset < record.size) :
    later ((copier.target record).start + offset) = buffer (record.dest - (copier.pageRange page).start + offset) := by
  have above := laid.above found
  have place : (copier.target record).start + offset =
      page.start + (record.dest - (copier.pageRange page).start + offset) := by
    simp only [Span.Within, target, pageRange, FlexPage.range] at within ⊢
    omega
  rw [place]
  apply holds
  simp only [Span.Within, Span.stop, target, pageRange, FlexPage.range] at within ⊢
  omega

end Found

/-- What lies at the target of a record once every page is done: the image of the object if the
record is found with its page, and nothing otherwise. -/
theorem Progress.landed (progress : Progress manager types initial memory copier later)
    (laid : initial.Laid) (sourced : initial.Sourced manager types memory)
    (done : copier.finished = true) (found : initial.pageTable.slot idx = some page) (member : record ∈ initial.records)
    (within : (initial.target record).Within page.range) :
    (record ∈ initial.lookup page → ∀ slots, manager.Shape types memory (initial.source record) record.size slots →
      Image initial.updater memory later (initial.source record) (initial.target record).start record.size slots) ∧
    (record ∉ initial.lookup page → ∀ offset < record.size, later ((initial.target record).start + offset) = 0) := by
  obtain ⟨buffer, built, holds⟩ := progress.finished done found
  constructor
  · intro listed slots shape
    have image := built.image laid sourced.movable listed shape
    exact image.congr (fun slot inside => shape.slot_within inside) (fun _ _ => rfl)
      fun offset inside => laid.target_word found holds within inside
  · intro missed offset inside
    rw [laid.target_word found holds within inside]
    exact built.missing laid sourced.movable found member within missed offset inside

end UwUGC.Gc.CopierActive
