import UwUGC.Mm.PageRanges

/-! From an address to its page. The search goes back from the base page of the address to the
page that starts at or before it. -/

set_option autoImplicit false

namespace UwUGC.PageTable

variable {table : PageTable} {addr current idx : Nat} {page : FlexPage}

theorem shift_eq_div (offset : Nat) : offset >>> basePageShift = offset / basePageSize := by
  rw [Nat.shiftRight_eq_div_pow, basePageSize_eq]
  rfl

theorem getPage_eq_ok_none (bound : idx < table.pageTable.length) (empty : table.slot idx = none) :
    table.getPage idx = .ok none := by
  unfold slot at empty
  unfold getPage
  rw [List.getElem?_eq_getElem bound] at empty ⊢
  rw [Option.getD_some] at empty
  simp only [empty]

theorem searchBack_page (found : table.slot idx = some page) :
    table.searchBack addr idx = .ok (if page.range.Contains addr then some idx else none) := by
  unfold searchBack
  simp only [getPage_eq_ok_some.mpr found, bind, Except.bind]
  split
  · next inside => rw [if_pos (show page.range.Contains addr from inside)]
  · next outside => rw [if_neg (show ¬ page.range.Contains addr from outside)]

theorem searchBack_found (found : table.slot idx = some page) (behind : idx ≤ current)
    (bound : current < table.pageTable.length) (empty : ∀ other, idx < other → other ≤ current → table.slot other = none) :
    table.searchBack addr current = .ok (if page.range.Contains addr then some idx else none) := by
  induction current with
  | zero =>
      cases Nat.le_zero.mp behind
      exact searchBack_page found
  | succ current ih =>
      rcases Nat.eq_or_lt_of_le behind with same | before
      · subst same
        exact searchBack_page found
      · have gap := getPage_eq_ok_none bound (empty (current + 1) before (Nat.le_refl _))
        unfold searchBack
        simp only [gap, bind, Except.bind]
        exact ih (Nat.le_of_lt_succ before) (by omega) fun other after below => empty other after (by omega)

theorem searchBack_none (bound : current < table.pageTable.length)
    (empty : ∀ other ≤ current, table.slot other = none) : table.searchBack addr current = .ok none := by
  induction current with
  | zero =>
      unfold searchBack
      simp only [getPage_eq_ok_none bound (empty 0 (Nat.le_refl _)), bind, Except.bind]
  | succ current ih =>
      unfold searchBack
      simp only [getPage_eq_ok_none bound (empty _ (Nat.le_refl _)), bind, Except.bind]
      exact ih (by omega) fun other below => empty other (by omega)

theorem nearest_page (table : PageTable) (current : Nat) :
    (∀ other ≤ current, table.slot other = none) ∨
      ∃ idx page, table.slot idx = some page ∧ idx ≤ current ∧
        ∀ other, idx < other → other ≤ current → table.slot other = none := by
  induction current with
  | zero =>
      cases found : table.slot 0 with
      | none =>
          refine .inl fun other below => ?_
          rw [Nat.le_zero.mp below]
          exact found
      | some page => exact .inr ⟨0, page, found, Nat.le_refl _, fun other after below => by omega⟩
  | succ current ih =>
      cases found : table.slot (current + 1) with
      | some page => exact .inr ⟨current + 1, page, found, Nat.le_refl _, fun other after below => by omega⟩
      | none =>
          have last (other : Nat) (below : other ≤ current + 1) (empty : other ≤ current → table.slot other = none) :
              table.slot other = none := by
            rcases Nat.eq_or_lt_of_le below with same | before
            · exact same ▸ found
            · exact empty (Nat.le_of_lt_succ before)
          rcases ih with empty | ⟨idx, page, there, before, gap⟩
          · exact .inl fun other below => last other below (empty other)
          · exact .inr ⟨idx, page, there, Nat.le_succ_of_le before, fun other after below =>
              last other below (gap other after)⟩

theorem base_page_of_contains (arranged : table.Arranged) (found : table.slot idx = some page)
    (inside : page.range.Contains addr) :
    table.baseAddr ≤ addr ∧ idx ≤ (addr - table.baseAddr) / basePageSize ∧
      (addr - table.baseAddr) / basePageSize < idx + page.nrPages := by
  obtain ⟨lower, upper⟩ := inside
  have start := arranged.start found
  simp only [Span.stop, FlexPage.range, start, FlexPage.size_of_nrPages] at lower upper
  refine ⟨by omega, ?_, ?_⟩
  · rw [Nat.le_div_iff_mul_le basePageSize_pos]
    omega
  · rw [Nat.div_lt_iff_lt_mul basePageSize_pos, Nat.add_mul]
    omega

theorem contains_of_base_page (arranged : table.Arranged) (found : table.slot idx = some page) (above : table.baseAddr ≤ addr)
    (lower : idx ≤ (addr - table.baseAddr) / basePageSize)
    (upper : (addr - table.baseAddr) / basePageSize < idx + page.nrPages) : page.range.Contains addr := by
  rw [Nat.le_div_iff_mul_le basePageSize_pos] at lower
  rw [Nat.div_lt_iff_lt_mul basePageSize_pos, Nat.add_mul] at upper
  have start := arranged.start found
  simp only [Span.Contains, Span.stop, FlexPage.range, start, FlexPage.size_of_nrPages]
  omega

theorem resolveToPage_found (arranged : table.Arranged) (found : table.slot idx = some page)
    (inside : page.range.Contains addr) : table.resolveToPage addr = .ok (some idx) := by
  obtain ⟨above, lower, upper⟩ := base_page_of_contains arranged found inside
  have within := arranged.within found
  have used : ¬ (addr - table.baseAddr) / basePageSize ≥ table.getUsedEndPage := by
    simp only [getUsedEndPage]
    omega
  simp only [resolveToPage, shift_eq_div, if_neg (Nat.not_lt.mpr above), if_neg used]
  rw [searchBack_found found lower, if_pos inside]
  · have bounded := arranged.bounded
    rw [arranged.length]
    omega
  · intro other after below
    cases there : table.slot other with
    | none => rfl
    | some later =>
        have separate := arranged.separate found there after
        omega

theorem resolveToPage_none (arranged : table.Arranged)
    (outside : ∀ idx page, table.slot idx = some page → ¬ page.range.Contains addr) :
    table.resolveToPage addr = .ok none := by
  unfold resolveToPage
  split
  · rfl
  · simp only [shift_eq_div, getUsedEndPage]
    split
    · rfl
    · next used =>
        have bounded := arranged.bounded
        have bound : (addr - table.baseAddr) / basePageSize < table.pageTable.length := by
          rw [arranged.length]
          omega
        rcases nearest_page table ((addr - table.baseAddr) / basePageSize) with empty | ⟨idx, page, found, before, gap⟩
        · exact searchBack_none bound empty
        · rw [searchBack_found found before bound gap, if_neg (outside idx page found)]

end UwUGC.PageTable
