import UwUGC.Gc.CopierRuns

/-! To-space as a mutator sees it. A page that is not there yet reads as what it will hold, so
that a fault changes nothing that can be seen. -/

set_option autoImplicit false

namespace UwUGC.Gc.CopierActive

open PageTable

variable {Types : Type} (manager : TypeManager Types) (types : Types)

/-- What an address of to-space will hold when its page is filled. -/
def promised (copier : CopierActive) (memory : Memory) : Memory := fun address =>
  match copier.pageTable.resolveToPage address with
  | .ok (some idx) =>
      match copier.pageTable.slot idx with
      | some page =>
          match copyRecords manager types copier memory (copier.pageRange page) (copier.lookup page) fun _ => 0 with
          | .ok buffer => buffer (address - page.start)
          | .error _ => 0
      | none => 0
  | _ => 0

def view (copier : CopierActive) (memory : Memory) : Memory := fun address =>
  if copier.space.Contains address ∧ copier.present address = false then copier.promised manager types memory address
  else memory address

/-- The copier can fill every page that is left, whatever is in the others. -/
structure Copies (copier : CopierActive) (memory : Memory) : Prop where
  laid : copier.Laid
  sourced : copier.Sourced manager types memory
  buildable : ∀ idx page, copier.pageTable.slot idx = some page → ∃ buffer, copier.Builds manager types memory page buffer

variable {manager types} {copier next : CopierActive} {memory later after : Memory} {idx addr address : Nat} {page : FlexPage}

theorem view_present (there : copier.present address = true) : copier.view manager types memory address = memory address := by
  rw [view, if_neg (by simp [there])]

theorem view_outside (outside : ¬ copier.space.Contains address) :
    copier.view manager types memory address = memory address := by
  rw [view, if_neg (by simp [outside])]

theorem present_outside (outside : ¬ copier.space.Contains address) : copier.present address = true := by
  rw [present]
  simp only [shift_eq_div]
  rw [if_pos]
  by_contra inside
  obtain ⟨above, bounded⟩ := not_or.mp inside
  apply outside
  rw [ge_iff_le, Nat.not_le, Nat.div_lt_iff_lt_mul basePageSize_pos] at bounded
  simp only [Span.Contains, Span.stop, space]
  omega

theorem base_page_inside (inside : copier.space.Contains address) :
    copier.heap.toSpace ≤ address ∧ (address - copier.heap.toSpace) / basePageSize < copier.pageTable.nrPages := by
  simp only [Span.Contains, Span.stop, space] at inside
  refine ⟨inside.1, ?_⟩
  rw [Nat.div_lt_iff_lt_mul basePageSize_pos]
  omega

/-- A page is there when its bit is set, all of it at once. -/
theorem Laid.present_page (laid : copier.Laid) (found : copier.pageTable.slot idx = some page)
    (inside : page.range.Contains address) : copier.present address = copier.workDone.bit idx := by
  obtain ⟨above, bounded⟩ := base_page_inside ((laid.page_within found).contains inside)
  have resolved := resolveToPage_found laid.placed.arranged found inside
  obtain ⟨_, _, upper⟩ := base_page_of_contains laid.placed.arranged found inside
  have within := laid.placed.within found
  rw [laid.base] at upper
  have used : ¬ (address - copier.heap.toSpace) / basePageSize ≥ copier.zeroPageStart := by
    rw [laid.used]
    omega
  simp only [present, shift_eq_div, Nat.not_lt.mpr above, Nat.not_le.mpr bounded, ge_iff_le, or_self, if_false, if_neg used, resolved]

/-- Where there is no page, each base page is there when its own bit is set. -/
theorem Laid.present_zero (laid : copier.Laid) (inside : copier.space.Contains address)
    (outside : ∀ idx page, copier.pageTable.slot idx = some page → ¬ page.range.Contains address) :
    copier.present address = copier.workDone.bit ((address - copier.heap.toSpace) / basePageSize) := by
  obtain ⟨above, bounded⟩ := base_page_inside inside
  have resolved := resolveToPage_none laid.placed.arranged outside
  simp only [present, shift_eq_div, Nat.not_lt.mpr above, Nat.not_le.mpr bounded, ge_iff_le, or_self, if_false, resolved, ite_self]

/-- What is there is there by base pages. -/
theorem Laid.present_same (laid : copier.Laid) {other : Nat} (inside : copier.space.Contains address)
    (otherInside : copier.space.Contains other)
    (same : (address - copier.heap.toSpace) / basePageSize = (other - copier.heap.toSpace) / basePageSize) :
    copier.present address = copier.present other := by
  have moved {left right idx : Nat} {page : FlexPage} (above : copier.heap.toSpace ≤ right)
      (found : copier.pageTable.slot idx = some page) (inPage : page.range.Contains left)
      (same : (left - copier.heap.toSpace) / basePageSize = (right - copier.heap.toSpace) / basePageSize) :
      page.range.Contains right := by
    obtain ⟨_, lower, upper⟩ := base_page_of_contains laid.placed.arranged found inPage
    rw [laid.base, same] at lower upper
    refine contains_of_base_page laid.placed.arranged found ?_ ?_ ?_ <;> rw [laid.base] <;> assumption
  by_cases hit : ∃ idx page, copier.pageTable.slot idx = some page ∧ page.range.Contains address
  · obtain ⟨idx, page, found, inPage⟩ := hit
    rw [laid.present_page found inPage, laid.present_page found (moved otherInside.1 found inPage same)]
  · have outside (idx : Nat) (page : FlexPage) (found : copier.pageTable.slot idx = some page) :
        ¬ page.range.Contains address := fun inPage => hit ⟨idx, page, found, inPage⟩
    rw [laid.present_zero inside outside, laid.present_zero otherInside, same]
    exact fun idx page found inPage => outside idx page found (moved inside.1 found inPage same.symm)

theorem Laid.promised_page (laid : copier.Laid) (found : copier.pageTable.slot idx = some page)
    {buffer : Memory} (built : copier.Builds manager types memory page buffer) (inside : page.range.Contains address) :
    copier.promised manager types memory address = buffer (address - page.start) := by
  have resolved := resolveToPage_found laid.placed.arranged found inside
  unfold Builds at built
  simp only [promised, resolved, found, built]

theorem Laid.promised_zero (laid : copier.Laid)
    (outside : ∀ idx page, copier.pageTable.slot idx = some page → ¬ page.range.Contains address) :
    copier.promised manager types memory address = 0 := by
  have resolved := resolveToPage_none laid.placed.arranged outside
  simp only [promised, resolved]

section Same

variable (copies : copier.Copies manager types memory)
  (kept : ∀ address, ¬ copier.space.Contains address → later address = memory address)

include copies kept

theorem Copies.sources_kept {record : RelocationRecord} (listed : record ∈ copier.records) {offset : Nat}
    (inside : offset < record.size) : later (copier.source record + offset) = memory (copier.source record + offset) := by
  refine kept _ ((copies.sourced.outside record listed).not_contains ?_)
  simp only [Span.Contains, Span.stop]
  omega

/-- What is written in to-space does not change what a page is built of. -/
theorem Copies.copyRecords_same {workDone : AtomicBitmap} :
    copyRecords manager types { copier with workDone } later (copier.pageRange page) (copier.lookup page) (fun _ => 0) =
      copyRecords manager types copier memory (copier.pageRange page) (copier.lookup page) (fun _ => 0) := by
  refine copyRecords_congr ?_
  intro record listed offset inside
  exact copies.sources_kept kept (lookup_sublist.subset listed) inside

theorem Copies.promised_same {workDone : AtomicBitmap} :
    promised manager types { copier with workDone } later = copier.promised manager types memory := by
  funext address
  have same (page : FlexPage) := @Copies.copyRecords_same _ _ _ _ _ _ page copies kept workDone
  simp only [lookup, pageRange] at same
  simp only [promised, lookup, pageRange, same]

theorem Copies.same {workDone : AtomicBitmap} (laid : Laid { copier with workDone }) :
    Copies manager types { copier with workDone } later where
  laid := laid
  sourced := by
    refine ⟨?_, copies.sourced.outside⟩
    intro record listed
    obtain ⟨slots, movable⟩ := copies.sourced.movable record listed
    refine ⟨slots, movable.same_body (.of_agrees movable.shape.header_le ?_)⟩
    intro address inside
    exact kept address ((copies.sourced.outside record listed).not_contains inside)
  buildable := by
    intro idx page found
    obtain ⟨buffer, built⟩ := copies.buildable idx page found
    exact ⟨buffer, (copies.copyRecords_same kept).trans built⟩

end Same

/-- A write to what is there is a write to what is seen. -/
theorem Copies.write (copies : copier.Copies manager types memory) (inside : copier.space.Contains addr)
    (there : copier.present addr = true) (value : Nat) :
    copier.Copies manager types (Function.update memory addr value) ∧
      copier.view manager types (Function.update memory addr value) =
        Function.update (copier.view manager types memory) addr value := by
  have kept (address : Nat) (outside : ¬ copier.space.Contains address) :
      Function.update memory addr value address = memory address := by
    apply Function.update_of_ne
    rintro rfl
    exact outside inside
  refine ⟨copies.same kept copies.laid, ?_⟩
  have promised : copier.promised manager types (Function.update memory addr value) = copier.promised manager types memory :=
    copies.promised_same kept
  funext address
  by_cases here : address = addr
  · subst here
    rw [view_present there, Function.update_self, Function.update_self]
  · rw [Function.update_of_ne here]
    unfold view
    rw [promised, Function.update_of_ne here]

/-- What a fault leaves: more is there, nothing outside of to-space has changed, and nothing
that can be seen. -/
structure Unseen (manager : TypeManager Types) (types : Types) (copier : CopierActive) (memory : Memory)
    (next : CopierActive) (after : Memory) : Prop where
  same : ∃ workDone, next = { copier with workDone }
  copies : Copies manager types next after
  kept : ∀ address, ¬ copier.space.Contains address → after address = memory address
  more : ∀ address, copier.present address = true → next.present address = true
  view : next.view manager types after = copier.view manager types memory

/-- A step that fills one place of to-space, and leaves the others alone. -/
theorem Copies.fills (copies : copier.Copies manager types memory) (marked : copier.Marked idx next)
    {written : Span} (within : written.Within copier.space)
    (frame : ∀ address, ¬ written.Contains address → after address = memory address)
    (there : ∀ address, copier.space.Contains address →
      next.present address = (decide (written.Contains address) || copier.present address))
    (filled : ∀ address, written.Contains address → after address = copier.view manager types memory address) :
    Unseen manager types copier memory next after := by
  have laid := marked.laid copies.laid
  obtain ⟨workDone, rfl, _⟩ := marked
  have kept (address : Nat) (outside : ¬ copier.space.Contains address) : after address = memory address :=
    frame address fun inside => outside (within.contains inside)
  refine ⟨⟨workDone, rfl⟩, copies.same kept laid, kept, ?_, ?_⟩
  · intro address present
    by_cases inside : copier.space.Contains address
    · rw [there address inside, present, Bool.or_true]
    · exact present_outside inside
  · funext address
    by_cases inside : copier.space.Contains address
    · have present := there address inside
      by_cases inWritten : written.Contains address
      · rw [view_present (by simp [present, inWritten]), filled address inWritten]
      · have old : after address = memory address := frame address inWritten
        simp only [inWritten, decide_false, Bool.false_or] at present
        have promised : promised manager types { copier with workDone } after = copier.promised manager types memory :=
          copies.promised_same kept
        change (if copier.space.Contains address ∧ _ then _ else _) = _
        rw [present, promised, old]
        rfl
    · have seen : view manager types { copier with workDone } after address = after address := view_outside inside
      rw [seen, view_outside inside]
      exact kept address inside

/-- A fault at a place that was filled before. -/
theorem Copies.resolve_done (copies : copier.Copies manager types memory)
    (marked : copier.Marked idx next) (done : copier.workDone.bit idx = true) :
    Unseen manager types copier memory next memory := by
  have laid := marked.laid copies.laid
  obtain ⟨workDone, rfl, _, _, bits⟩ := marked
  have same (other : Nat) : workDone.bit other = copier.workDone.bit other := by
    rw [bits]
    by_cases here : other = idx
    · simp [here, done]
    · simp [here]
  have there (address : Nat) : present { copier with workDone } address = copier.present address := by
    simp only [present, same]
  refine ⟨⟨workDone, rfl⟩, copies.same (fun _ _ => rfl) laid, fun _ _ => rfl, ?_, ?_⟩
  · exact fun address present => (there address).trans present
  · funext address
    have promised : promised manager types { copier with workDone } memory = copier.promised manager types memory :=
      copies.promised_same fun _ _ => rfl
    change (if copier.space.Contains address ∧ _ then _ else _) = _
    rw [there, promised]
    rfl

/-- The place of a page, or a base page where there is none, by the bit that stands for it. -/
theorem Marked.there (marked : copier.Marked idx next) (laid : copier.Laid) {written : Span}
    (covers : ∀ address, copier.space.Contains address → (written.Contains address ↔
      (∃ page, copier.pageTable.slot idx = some page ∧ page.range.Contains address) ∨
      (∀ other page, copier.pageTable.slot other = some page → ¬ page.range.Contains address) ∧
        (address - copier.heap.toSpace) / basePageSize = idx))
    (inside : copier.space.Contains address) :
    next.present address = (decide (written.Contains address) || copier.present address) := by
  have laidNext := marked.laid laid
  obtain ⟨workDone, rfl, _, _, bits⟩ := marked
  by_cases hit : ∃ other page, copier.pageTable.slot other = some page ∧ page.range.Contains address
  · obtain ⟨other, page, found, inPage⟩ := hit
    rw [laidNext.present_page found inPage, laid.present_page found inPage, bits]
    have same : other = idx ↔ written.Contains address := by
      rw [covers address inside]
      constructor
      · rintro rfl
        exact .inl ⟨page, found, inPage⟩
      · rintro (⟨there, thereFound, inThere⟩ | ⟨outside, _⟩)
        · by_contra different
          exact (pages_separate laid.placed found thereFound different).not_contains inPage inThere
        · exact absurd inPage (outside other page found)
    simp only [same]
  · have outside (other : Nat) (page : FlexPage) (found : copier.pageTable.slot other = some page) :
        ¬ page.range.Contains address := fun inPage => hit ⟨other, page, found, inPage⟩
    rw [laidNext.present_zero inside outside, laid.present_zero inside outside, bits]
    have same : (address - copier.heap.toSpace) / basePageSize = idx ↔ written.Contains address := by
      rw [covers address inside]
      constructor
      · exact fun here => .inr ⟨outside, here⟩
      · rintro (⟨page, found, inPage⟩ | ⟨_, here⟩)
        · exact absurd inPage (outside idx page found)
        · exact here
    simp only [same]

theorem Copies.resolve_page (copies : copier.Copies manager types memory)
    (marked : copier.Marked idx next) (fresh : copier.workDone.bit idx = false)
    (found : copier.pageTable.slot idx = some page) {buffer : Memory} (built : copier.Builds manager types memory page buffer) :
    Unseen manager types copier memory next (memory.copy buffer 0 page.start page.size) := by
  have laid := copies.laid
  have within := laid.page_within found
  refine copies.fills marked within (fun address outside => Memory.copy_outside outside) ?_ ?_
  · refine fun address inside => marked.there laid ?_ inside
    intro address inside
    constructor
    · exact fun inPage => .inl ⟨page, found, inPage⟩
    · rintro (⟨there, thereFound, inThere⟩ | ⟨outside, here⟩)
      · cases found.symm.trans thereFound
        exact inThere
      · have nonempty := laid.placed.nonempty found
        refine contains_of_base_page laid.placed.arranged found ?_ ?_ ?_ <;> rw [laid.base]
        · exact inside.1
        · exact Nat.le_of_eq here.symm
        · omega
  · intro address inside
    have inSpace := within.contains inside
    have absent := laid.present_page found inside
    rw [fresh] at absent
    rw [view, if_pos ⟨inSpace, absent⟩, laid.promised_page found built inside]
    change (if page.range.Contains address then _ else _) = _
    rw [if_pos inside, Nat.zero_add]

theorem contains_basePage {pageId : Nat} : (copier.basePage pageId).Contains address ↔
    copier.heap.toSpace ≤ address ∧ (address - copier.heap.toSpace) / basePageSize = pageId := by
  rw [Nat.div_eq_iff basePageSize_pos]
  have positive := basePageSize_pos
  simp only [Span.Contains, Span.stop, basePage]
  omega

/-- Zeroing a base page that no page reaches into. -/
theorem Copies.resolve_zero (copies : copier.Copies manager types memory)
    (inside : copier.space.Contains addr)
    (outside : ∀ idx page, copier.pageTable.slot idx = some page → ¬ page.range.Contains addr)
    (marked : copier.Marked ((addr - copier.heap.toSpace) / basePageSize) next)
    (fresh : copier.workDone.bit ((addr - copier.heap.toSpace) / basePageSize) = false) :
    Unseen manager types copier memory next
      (zeroed memory (copier.basePage ((addr - copier.heap.toSpace) / basePageSize))) := by
  have laid := copies.laid
  obtain ⟨above, bounded⟩ := base_page_inside inside
  generalize same : (addr - copier.heap.toSpace) / basePageSize = pageId at *
  -- An address of the base page is as far from every page as the one that faulted.
  have apart (address : Nat) (here : (address - copier.heap.toSpace) / basePageSize = pageId) (idx : Nat) (page : FlexPage)
      (found : copier.pageTable.slot idx = some page) : ¬ page.range.Contains address := by
    intro inPage
    obtain ⟨_, lower, upper⟩ := base_page_of_contains laid.placed.arranged found inPage
    rw [laid.base, here, ← same] at lower upper
    refine outside idx page found (contains_of_base_page laid.placed.arranged found ?_ ?_ ?_) <;> rw [laid.base] <;> assumption
  have frame (address : Nat) (outside : ¬ (copier.basePage pageId).Contains address) :
      zeroed memory (copier.basePage pageId) address = memory address := Memory.copy_outside outside
  refine copies.fills marked ?_ frame ?_ ?_
  · have room := Nat.mul_le_mul_right basePageSize bounded
    rw [Nat.succ_mul] at room
    simp only [Span.Within, Span.stop, basePage, space]
    omega
  · refine fun address inSpace => marked.there laid ?_ inSpace
    intro address inSpace
    rw [contains_basePage]
    constructor
    · rintro ⟨_, here⟩
      exact .inr ⟨apart address here, here⟩
    · rintro (⟨page, found, inPage⟩ | ⟨_, here⟩)
      · obtain ⟨below, lower, upper⟩ := base_page_of_contains laid.placed.arranged found inPage
        have start := laid.placed.nonempty found
        refine absurd ?_ (outside pageId page found)
        refine contains_of_base_page laid.placed.arranged found ?_ ?_ ?_ <;> rw [laid.base]
        · exact above
        · exact Nat.le_of_eq same.symm
        · omega
      · exact ⟨inSpace.1, here⟩
  · intro address contained
    obtain ⟨below, here⟩ := contains_basePage.mp contained
    have inSpace : copier.space.Contains address := by
      refine ⟨below, ?_⟩
      rw [← here, Nat.div_lt_iff_lt_mul basePageSize_pos] at bounded
      simp only [Span.stop, space]
      omega
    have absent := laid.present_zero inSpace (apart address here)
    rw [here, fresh] at absent
    rw [view, if_pos ⟨inSpace, absent⟩, laid.promised_zero (apart address here), zeroed, Memory.copy]
    exact if_pos contained

/-- The bitmap takes no base page beyond the end of to-space. -/
theorem doZeropage_bounded {pageId : Nat} (zeroed : copier.doZeropage memory pageId = .ok (after, next)) :
    pageId < copier.workDone.len := by
  by_contra beyond
  simp only [doZeropage, claim, AtomicBitmap.set, AtomicBitmap.update, ge_iff_le, if_pos (Nat.le_of_not_lt beyond), bind,
    Except.bind] at zeroed
  cases zeroed

theorem Copies.resolve (copies : copier.Copies manager types memory)
    (resolved : copier.resolveFault manager types memory addr = .ok (after, next)) :
    Unseen manager types copier memory next after := by
  have laid := copies.laid
  by_cases hit : ∃ idx page, copier.pageTable.slot idx = some page ∧ page.range.Contains addr
  · obtain ⟨idx, page, found, inPage⟩ := hit
    rw [resolveFault_page laid found inPage] at resolved
    cases done : copier.workDone.bit idx with
    | true =>
        have relocated : ∃ next, copier.doRelocate manager types memory idx page = .ok (memory, next) ∧ copier.Marked idx next :=
          doRelocate_done laid found done
        obtain ⟨_, again, marked⟩ := relocated
        cases again.symm.trans resolved
        exact copies.resolve_done marked done
    | false =>
        obtain ⟨buffer, built⟩ := copies.buildable idx page found
        have relocated : ∃ next, copier.Marked idx next ∧ copier.doRelocate manager types memory idx page = _ :=
          doRelocate_fresh laid found done
        obtain ⟨_, marked, relocated⟩ := relocated
        unfold Builds at built
        rw [relocated, built] at resolved
        cases resolved
        exact copies.resolve_page marked done found built
  · have outside (idx : Nat) (page : FlexPage) (found : copier.pageTable.slot idx = some page) :
        ¬ page.range.Contains addr := fun inPage => hit ⟨idx, page, found, inPage⟩
    have above : copier.heap.toSpace ≤ addr := by
      simp only [resolveFault, bind_eq_ok, checkedSub_eq_ok] at resolved
      exact resolved.choose_spec.1.1
    rw [resolveFault_zeropage laid above outside] at resolved
    have room := doZeropage_bounded resolved
    have inside : copier.space.Contains addr := by
      refine ⟨above, ?_⟩
      rw [laid.length, Nat.div_lt_iff_lt_mul basePageSize_pos] at room
      simp only [Span.stop, space]
      omega
    cases done : copier.workDone.bit ((addr - copier.heap.toSpace) / basePageSize) with
    | true =>
        obtain ⟨_, _, again, marked, same, _⟩ := @doZeropage_eq_ok _ memory laid _ room
        cases again.symm.trans resolved
        rw [same done]
        exact copies.resolve_done marked done
    | false =>
        obtain ⟨workDone, set, sized, length, bits⟩ := AtomicBitmap.set_true_eq_ok laid.sized room
        have marked : copier.Marked _ { copier with workDone } := ⟨workDone, rfl, sized, length, bits⟩
        simp only [doZeropage, claim_eq_ok.mpr ⟨workDone, set, rfl⟩, zeropage, done, bind, Except.bind, Bool.false_eq_true,
          if_false, getBaseAddr, laid.base] at resolved
        cases resolved
        exact copies.resolve_zero inside outside marked done

end UwUGC.Gc.CopierActive
