import UwUGC.Gc.CopierProperties
import UwUGC.Gc.RelocationLookups
import UwUGC.Mm.PageResolution

/-! Filling the pages of to-space one by one. With ascending destinations the lookup by page
gives the records of the page, so a page that was filled holds an image for each of them. -/

set_option autoImplicit false

namespace UwUGC.Gc.CopierActive

open PageTable FrozenRegistry

variable {Types : Type} {manager : TypeManager Types} {types : Types} {copier next : CopierActive}
  {memory later : Memory} {record : RelocationRecord} {idx addr : Nat} {page : FlexPage}

/-- The records in the order in which the copier searches them. -/
def records (copier : CopierActive) : List RelocationRecord := copier.relocRegistry.recordsSortedByDest

/-- Where a record puts its object. -/
def target (copier : CopierActive) (record : RelocationRecord) : Span := ⟨copier.heap.toSpace + record.dest, record.size⟩

/-- The records lie in the pages of to-space, apart from each other, and each page starts with one. -/
structure Laid (copier : CopierActive) : Prop where
  placed : copier.pageTable.Placed
  base : copier.pageTable.baseAddr = copier.heap.toSpace
  used : copier.zeroPageStart = copier.pageTable.currentBasePage
  sized : copier.workDone.Sized
  length : copier.workDone.len = copier.pageTable.nrPages
  held : ∀ record ∈ copier.records, copier.pageTable.Holds (copier.target record)
  starts : ∀ idx page, copier.pageTable.slot idx = some page →
    ∃ record ∈ copier.records, (copier.target record).start = page.start
  apart : copier.records.Pairwise fun left right => left.getDestRange.Separate right.getDestRange
  filled : ∀ record ∈ copier.records, metadataSize ≤ record.size

theorem Laid.above (laid : copier.Laid) (found : copier.pageTable.slot idx = some page) :
    copier.heap.toSpace ≤ page.start := by
  rw [laid.placed.start found, laid.base]
  exact Nat.le_add_right _ _

theorem Laid.within (laid : copier.Laid) (found : copier.pageTable.slot idx = some page) {point : Nat}
    (member : record ∈ copier.records) (inRecord : (copier.target record).Contains point)
    (inPage : page.range.Contains point) : (copier.target record).Within page.range := by
  obtain ⟨other, there, otherFound, within⟩ := laid.held record member
  have inThere := within.trans (usedRange_within laid.placed otherFound)
  by_cases same : other = idx
  · subst same
    rw [found] at otherFound
    cases otherFound
    exact inThere
  · have separate := pages_separate laid.placed otherFound found same
    exact absurd inPage (separate.not_contains (inThere.contains inRecord))

def pageRange (copier : CopierActive) (page : FlexPage) : Span := ⟨page.start - copier.heap.toSpace, page.size⟩

theorem Laid.target_within (laid : copier.Laid) (found : copier.pageTable.slot idx = some page) :
    (copier.target record).Within page.range ↔ record.getDestRange.Within (copier.pageRange page) := by
  have above := laid.above found
  simp only [Span.Within, Span.stop, target, RelocationRecord.getDestRange, FlexPage.range, pageRange]
  omega

def lookup (copier : CopierActive) (page : FlexPage) : List RelocationRecord :=
  copier.relocRegistry.iterateRecordsInDestRange (copier.pageRange page)

theorem lookup_sublist : (copier.lookup page).Sublist copier.records := iterate_sublist _ _

/-- With ascending destinations the lookup by page is exact. -/
theorem Laid.mem_lookup (laid : copier.Laid) (ascending : Ascending RelocationRecord.getDestRange copier.records)
    (found : copier.pageTable.slot idx = some page) (record : RelocationRecord) :
    record ∈ copier.lookup page ↔ record ∈ copier.records ∧ (copier.target record).Within page.range := by
  have above := laid.above found
  have filled (record : RelocationRecord) (member : record ∈ copier.records) : 0 < record.size := by
    have := laid.filled record member
    simp only [metadataSize] at this
    omega
  have nonempty : 0 < page.size := by
    rw [FlexPage.size_of_nrPages]
    exact Nat.mul_pos (laid.placed.nonempty found) basePageSize_pos
  obtain ⟨first, member, start⟩ := laid.starts idx page found
  have inside : first.getDestRange.Contains (copier.pageRange page).start := by
    have size := filled first member
    simp only [target] at start
    simp only [Span.Contains, Span.stop, RelocationRecord.getDestRange, pageRange]
    omega
  have exact_ : ExactByDest copier.records (copier.pageRange page) (copier.lookup page) :=
    iterate_exact ascending filled nonempty member inside
  rw [exact_.2 record]
  refine and_congr_right fun listed => ?_
  constructor
  · rintro ⟨point, inRecord, inRange⟩
    have inTarget : (copier.target record).Contains (copier.heap.toSpace + point) := by
      simp only [Span.Contains, Span.stop, RelocationRecord.getDestRange, target] at inRecord ⊢
      omega
    have inPage : page.range.Contains (copier.heap.toSpace + point) := by
      simp only [Span.Contains, Span.stop, pageRange, FlexPage.range] at inRange ⊢
      omega
    exact laid.within found listed inTarget inPage
  · intro within
    have size := filled record listed
    have inRange := (laid.target_within found).mp within
    have first : record.getDestRange.Contains record.dest := by
      simp only [Span.Contains, Span.stop, RelocationRecord.getDestRange]
      omega
    exact ⟨record.dest, first, inRange.contains first⟩

theorem mem_takeWhile_append {α : Type} {keep : α → Bool} {item stop : α} {front behind : List α}
    (listed : item ∈ (front ++ stop :: behind).takeWhile keep) (ends : keep stop = false) : item ∈ front := by
  rw [List.takeWhile_append, List.takeWhile_cons, ends] at listed
  split at listed
  · simpa using listed
  · exact (List.takeWhile_sublist _).subset listed

theorem Laid.nodup (laid : copier.Laid) : copier.records.Nodup := by
  refine laid.apart.imp_of_mem ?_
  intro left right member _ separate same
  have size := laid.filled left member
  rw [same] at separate
  rw [same, metadataSize] at size
  simp only [Span.Separate, Span.stop, RelocationRecord.getDestRange] at separate
  omega

/-- A record is missed in a page that an earlier record opened, and that a record in between
lies above. -/
theorem Laid.misses (laid : copier.Laid) {front behind : List RelocationRecord} {before back opener : RelocationRecord}
    (split : copier.records = front ++ before :: back :: behind) (found : copier.pageTable.slot idx = some page)
    (below : page.range.stop ≤ (copier.target before).start) (member : opener ∈ front)
    (start : (copier.target opener).start = page.start) : back ∉ copier.lookup page := by
  intro listed
  have above := laid.above found
  have nodup := laid.nodup
  have opened : opener ∈ copier.records := split ▸ List.mem_append_left _ member
  have openerInside : opener.getDestRange.Contains (copier.pageRange page).start := by
    have size := laid.filled opener opened
    simp only [target] at start
    simp only [metadataSize] at size
    simp only [Span.Contains, Span.stop, RelocationRecord.getDestRange, pageRange]
    omega
  simp only [lookup, FrozenRegistry.iterateRecordsInDestRange, iterateRecordsInRangeBy] at listed
  split at listed
  · next startIdx search =>
      obtain ⟨value, there, equal⟩ := BinarySearch.binarySearchBy_sound search
      have inside : value.getDestRange.Contains (copier.pageRange page).start := by
        by_contra outside
        unfold probe at equal
        rw [if_neg outside] at equal
        split at equal <;> cases equal
      -- The search can only find the record that opened the page.
      have same : value = opener := by
        by_contra different
        have : Std.Symm fun left right : RelocationRecord => left.getDestRange.Separate right.getDestRange :=
          ⟨fun _ _ => Span.Separate.symm⟩
        exact (laid.apart.forall (List.mem_of_getElem? there) opened different).not_contains inside openerInside
      subst same
      have early : startIdx < front.length := by
        obtain ⟨index, bound, at_⟩ := List.getElem_of_mem member
        have first : copier.records[index]? = some value := by
          rw [split, List.getElem?_append_left bound, List.getElem?_eq_getElem bound, at_]
        have one := (List.getElem?_inj (List.getElem?_eq_some_iff.mp there).1 nodup).mp (there.trans first.symm)
        omega
      change back ∈ (copier.records.drop startIdx).takeWhile _ at listed
      rw [split, List.drop_append_of_le_length (Nat.le_of_lt early)] at listed
      have ends : decide (before.getDestRange.start < (copier.pageRange page).stop) = false := by
        apply decide_eq_false
        simp only [Span.stop, FlexPage.range, target] at below
        simp only [Span.stop, RelocationRecord.getDestRange, pageRange]
        omega
      have inFront := List.mem_of_mem_drop (mem_takeWhile_append listed ends)
      rw [split, List.nodup_append] at nodup
      exact nodup.2.2 back inFront back (by simp) rfl
  · cases listed

/-- The buffer that a page is built in. -/
def Builds (manager : TypeManager Types) (types : Types) (copier : CopierActive) (memory : Memory) (page : FlexPage)
    (buffer : Memory) : Prop :=
  copyRecords manager types copier memory (copier.pageRange page) (copier.lookup page) (fun _ => 0) = .ok buffer

section Builds

variable {buffer : Memory} (laid : copier.Laid)
  (movable : ∀ record ∈ copier.records, ∃ slots, manager.Movable types memory (copier.source record) record.size slots)
  (built : copier.Builds manager types memory page buffer)

include laid movable built

theorem Builds.image (member : record ∈ copier.lookup page) {slots : List Nat}
    (shape : manager.Shape types memory (copier.source record) record.size slots) :
    Image copier.updater memory buffer (copier.source record) (record.dest - (copier.pageRange page).start) record.size
      slots := by
  obtain ⟨_, images, _⟩ := copyRecords_eq_ok (fun record member => movable record (lookup_sublist.subset member))
    (laid.apart.sublist lookup_sublist) built
  exact images record member slots shape

theorem Builds.missing (found : copier.pageTable.slot idx = some page) (member : record ∈ copier.records)
    (within : (copier.target record).Within page.range) (missed : record ∉ copier.lookup page) :
    ∀ offset < record.size, buffer (record.dest - (copier.pageRange page).start + offset) = 0 := by
  obtain ⟨above, _, frame⟩ := copyRecords_eq_ok (fun record member => movable record (lookup_sublist.subset member))
    (laid.apart.sublist lookup_sublist) built
  intro offset inside
  refine frame _ ?_
  intro other otherMember contains
  have different : record ≠ other := fun same => missed (same ▸ otherMember)
  have : Std.Symm fun left right : RelocationRecord => left.getDestRange.Separate right.getDestRange :=
    ⟨fun _ _ => Span.Separate.symm⟩
  have separate := laid.apart.forall member (lookup_sublist.subset otherMember) different
  have otherAbove := above other otherMember
  have ownAbove := ((laid.target_within found).mp within).1
  simp only [RelocationRecord.getDestRange] at ownAbove separate
  simp only [Span.Contains, Span.Separate, Span.stop] at contains separate
  omega

end Builds

/-- The bitmap once a page is done. -/
def Marked (copier : CopierActive) (idx : Nat) (next : CopierActive) : Prop :=
  ∃ workDone, next = { copier with workDone } ∧ workDone.Sized ∧ workDone.len = copier.workDone.len ∧
    ∀ other, workDone.bit other = (decide (other = idx) || copier.workDone.bit other)

theorem Marked.laid (marked : copier.Marked idx next) (laid : copier.Laid) : next.Laid := by
  obtain ⟨workDone, rfl, sized, length, _⟩ := marked
  exact { laid with sized := sized, length := length.trans laid.length }

theorem Laid.idx_lt (laid : copier.Laid) (found : copier.pageTable.slot idx = some page) :
    idx < copier.workDone.len := by
  have within := laid.placed.within found
  have nonempty := laid.placed.nonempty found
  have bounded := laid.placed.bounded
  rw [laid.length]
  omega

theorem doRelocate_done (laid : copier.Laid) (found : copier.pageTable.slot idx = some page)
    (done : copier.workDone.bit idx = true) :
    ∃ next, copier.doRelocate manager types memory idx page = .ok (memory, next) ∧ copier.Marked idx next := by
  obtain ⟨workDone, set, sized, length, bits⟩ := AtomicBitmap.set_true_eq_ok laid.sized (laid.idx_lt found)
  refine ⟨{ copier with workDone }, ?_, workDone, rfl, sized, length, bits⟩
  simp only [doRelocate, claim_eq_ok.mpr ⟨workDone, set, rfl⟩, done, bind, Except.bind, if_true]

theorem doRelocate_fresh (laid : copier.Laid) (found : copier.pageTable.slot idx = some page)
    (fresh : copier.workDone.bit idx = false) :
    ∃ next, copier.Marked idx next ∧ copier.doRelocate manager types memory idx page =
      (copyRecords manager types copier memory (copier.pageRange page) (copier.lookup page) fun _ => 0).map fun buffer =>
        (memory.copy buffer 0 page.start page.size, next) := by
  obtain ⟨workDone, set, sized, length, bits⟩ := AtomicBitmap.set_true_eq_ok laid.sized (laid.idx_lt found)
  refine ⟨{ copier with workDone }, ⟨workDone, rfl, sized, length, bits⟩, ?_⟩
  have above := laid.above found
  have back : copier.heap.toSpace + (page.start - copier.heap.toSpace) = page.start := Nat.add_sub_cancel' above
  simp only [doRelocate, claim_eq_ok.mpr ⟨workDone, set, rfl⟩, relocatePage, fresh, bind, Except.bind, Bool.false_eq_true,
    if_false, checkedSub, getBaseAddr, laid.base, if_pos above, pageRange, lookup, back]
  cases copyRecords manager types copier memory ⟨page.start - copier.heap.toSpace, page.size⟩
    (copier.relocRegistry.iterateRecordsInDestRange ⟨page.start - copier.heap.toSpace, page.size⟩) fun _ => 0 <;> rfl

theorem builds_exists (laid : copier.Laid) (ascending : Ascending RelocationRecord.getDestRange copier.records)
    (found : copier.pageTable.slot idx = some page)
    (copies : ∀ record ∈ copier.records, ∃ slots, manager.Movable types memory (copier.source record) record.size slots ∧
      ∀ slot ∈ slots, memory.data (copier.source record) slot ≠ 0 →
        ∃ value, copier.updater (memory.data (copier.source record) slot) = .ok value) :
    ∃ buffer, copier.Builds manager types memory page buffer := by
  refine copyRecords_returns ?_
  intro record listed
  obtain ⟨member, within⟩ := (laid.mem_lookup ascending found record).mp listed
  obtain ⟨slots, movable, mapped⟩ := copies record member
  exact ⟨slots, movable, (laid.target_within found).mp within, mapped⟩

theorem resolveFault_page (laid : copier.Laid) (found : copier.pageTable.slot idx = some page)
    (inside : page.range.Contains addr) :
    copier.resolveFault manager types memory addr = copier.doRelocate manager types memory idx page := by
  obtain ⟨above, _, upper⟩ := base_page_of_contains laid.placed.arranged found inside
  have within := laid.placed.within found
  have resolved := resolveToPage_found laid.placed.arranged found inside
  rw [laid.base] at above upper
  have used : ¬ (addr - copier.heap.toSpace) / basePageSize ≥ copier.zeroPageStart := by
    rw [laid.used]
    omega
  simp only [resolveFault, checkedSub, if_pos above, bind, Except.bind, shift_eq_div, if_neg used, resolved,
    getPage_eq_ok_some.mpr found, unwrap_some]

theorem resolveFault_zeropage (laid : copier.Laid) (above : copier.heap.toSpace ≤ addr)
    (outside : ∀ idx page, copier.pageTable.slot idx = some page → ¬ page.range.Contains addr) :
    copier.resolveFault manager types memory addr =
      copier.doZeropage memory ((addr - copier.heap.toSpace) / basePageSize) := by
  have resolved := resolveToPage_none laid.placed.arranged outside
  simp only [resolveFault, checkedSub, if_pos above, bind, Except.bind, shift_eq_div, resolved, ite_self]

def basePage (copier : CopierActive) (pageId : Nat) : Span :=
  ⟨copier.heap.toSpace + pageId * basePageSize, basePageSize⟩

theorem doZeropage_eq_ok (laid : copier.Laid) {pageId : Nat} (inside : pageId < copier.workDone.len) :
    ∃ later next, copier.doZeropage memory pageId = .ok (later, next) ∧ copier.Marked pageId next ∧
      (copier.workDone.bit pageId = true → later = memory) ∧
      ∀ address, ¬ (copier.basePage pageId).Contains address → later address = memory address := by
  obtain ⟨workDone, set, sized, length, bits⟩ := AtomicBitmap.set_true_eq_ok laid.sized inside
  have marked : copier.Marked pageId { copier with workDone } := ⟨workDone, rfl, sized, length, bits⟩
  cases done : copier.workDone.bit pageId with
  | true =>
      refine ⟨memory, _, ?_, marked, fun _ => rfl, fun _ _ => rfl⟩
      simp only [doZeropage, claim_eq_ok.mpr ⟨workDone, set, rfl⟩, done, bind, Except.bind, if_true]
  | false =>
      refine ⟨zeroed memory (copier.basePage pageId), _, ?_, marked, by simp, ?_⟩
      · simp only [doZeropage, claim_eq_ok.mpr ⟨workDone, set, rfl⟩, zeropage, done, bind, Except.bind, Bool.false_eq_true,
          if_false, getBaseAddr, laid.base, basePage]
      · intro address outside
        exact Memory.copy_outside outside

end UwUGC.Gc.CopierActive
