import UwUGC.Mm.CompactionOrder

/-! A compaction that is not in page order: the first object to go back to an older page lies
there behind one that was placed later, in a page further up. -/

set_option autoImplicit false

namespace UwUGC

open PageTable

namespace Mm

variable {context : Context} {table final : PageTable} {demand : Demand} {ptr idx size : Nat}

/-- A place lies in a page of its class, which only a page further up could follow. -/
structure OnTop (context : Context) (table : PageTable) (place : (Nat × Nat) × Nat) : Prop where
  latest : Latest context table place.1.1 place.1.2 place.2
  page : ∃ page, table.slot place.1.2 = some page ∧ page.kind = sizeClass place.2 ∧
    (Span.mk place.1.1 place.2).Within page.range

theorem served_class (meets : Meets context table demand)
    (step : Allocates (sizeClass size) (context.buffer table size) (Context.hasRoom size) size table
      (some (ptr, idx)) final) :
    ∃ page, final.slot idx = some page ∧ page.kind = sizeClass size ∧ (Span.mk ptr size).Within page.range := by
  have placed := step.placed meets.placed (sizeClass_nrPages_pos size)
  obtain ⟨⟨page, found, within⟩, _⟩ := served_in_page meets.placed step
  refine ⟨page, found, ?_, within.trans (usedRange_within placed found)⟩
  cases step with
  | @bump _ old selected there room free =>
      rw [slot_bumped there, if_pos rfl] at found
      cases found
      rcases buffer_eq_some selected with ⟨small, cached⟩ | ⟨medium, cached⟩
      · obtain ⟨_, same, kind⟩ := meets.fits _ cached
        cases there.symm.trans same
        exact kind.trans small.symm
      · obtain ⟨_, same, kind⟩ := meets.placed.medium cached
        cases there.symm.trans same
        exact kind.trans medium.symm
  | fresh _ available nonnull free =>
      have positive := sizeClass_nrPages_pos size
      have bound : table.currentBasePage < table.pageTable.length := by
        rw [meets.placed.length]
        omega
      rw [slot_opened bound, if_pos rfl] at found
      cases found
      rfl

theorem allocEach_keeps {sizes : List Nat} {served : List (Nat × Nat)} {last : Context}
    (meets : Meets context table demand) (returned : context.allocEach table sizes = .ok (served, last, final))
    {page : FlexPage} (found : table.slot idx = some page) :
    ∃ later, final.slot idx = some later ∧ later.range = page.range := by
  induction sizes generalizing context table demand served page with
  | nil =>
      cases returned
      exact ⟨page, found, rfl⟩
  | cons size rest ih =>
      obtain ⟨_, _, middle, _, _, step, meets', returned⟩ := allocEach_cons meets returned
      obtain ⟨next, there, kind, start, _⟩ := step.keeps meets.placed.indexed (sizeClass_nrPages_pos size) found
      obtain ⟨later, found', same⟩ := ih meets' returned there
      refine ⟨later, found', same.trans ?_⟩
      simp only [FlexPage.range, FlexPage.size, start, kind]

theorem revisit_below (meets : Meets context table demand)
    (step : Allocates (sizeClass size) (context.buffer table size) (Context.hasRoom size) size table
      (some (ptr, idx)) final)
    (still : ¬ table.currentBasePage < final.currentBasePage) {place : (Nat × Nat) × Nat}
    (top : OnTop context table place) (other : sizeClass place.2 ≠ sizeClass size) :
    ∃ page, final.slot idx = some page ∧ (Span.mk ptr size).Within page.range ∧ page.range.stop ≤ place.1.1 := by
  have placed := step.placed meets.placed (sizeClass_nrPages_pos size)
  obtain ⟨page, found, kind, within⟩ := served_class meets step
  obtain ⟨above, there, aboveKind, start, _⟩ := top.page
  obtain ⟨same, same', stop, _⟩ := top.latest.page
  cases there.symm.trans same'
  obtain ⟨later, kept, laterKind, laterStart, _⟩ := step.keeps meets.placed.indexed (sizeClass_nrPages_pos size) there
  refine ⟨page, found, within, Nat.le_trans ?_ start⟩
  have different : idx ≠ place.1.2 := by
    intro one
    rw [one, kept] at found
    cases found
    exact other (aboveKind.symm.trans (laterKind.symm.trans kind))
  have size' : later.nrPages = above.nrPages := by simp only [FlexPage.nrPages, laterKind]
  have below : idx + page.nrPages ≤ place.1.2 := by
    rcases Nat.lt_or_gt_of_ne different with before | behind
    · exact placed.separate found kept before
    · have apart := placed.separate kept found behind
      have top := placed.within found
      have nonempty := placed.nonempty found
      omega
  have scaled := Nat.mul_le_mul_right basePageSize below
  rw [Nat.add_mul] at scaled
  have pageStart := placed.start found
  have aboveStart := placed.start kept
  rw [laterStart] at aboveStart
  simp only [Span.stop, FlexPage.range, FlexPage.size_of_nrPages, pageStart, aboveStart]
  omega

theorem allocEach_revisits {sizes : List Nat} {served : List (Nat × Nat)} {last : Context} {kind : Option FlexPageKind}
    {prior : List ((Nat × Nat) × Nat)} (meets : Meets context table demand)
    (fresh : kind = none → ∀ idx, table.slot idx = none)
    (starts : ∀ idx page, table.slot idx = some page → ∃ opener ∈ prior, opener.1.1 = page.start)
    (top : ∀ before, kind = some before → ∃ front place, prior = front ++ [place] ∧ OnTop context table place ∧
      sizeClass place.2 = before)
    (unordered : ¬ demand.InOrder kind sizes) (returned : context.allocEach table sizes = .ok (served, last, final)) :
    ∃ front before back behind, prior ++ places served sizes = front ++ before :: back :: behind ∧
      ∃ page, final.slot back.1.2 = some page ∧ (Span.mk back.1.1 back.2).Within page.range ∧
        page.range.stop ≤ before.1.1 ∧ ∃ opener ∈ front, opener.1.1 = page.start := by
  induction sizes generalizing context table demand kind served prior with
  | nil => exact absurd trivial unordered
  | cons size rest ih =>
      obtain ⟨ptr, idx, middle, later, rfl, step, meets', returned⟩ := allocEach_cons meets returned
      have cursor : table.currentBasePage = demand.pages := meets.cursor
      have cursor' : middle.currentBasePage = (demand.add size).pages := meets'.cursor
      obtain ⟨page, found, pageKind, within⟩ := served_class meets step
      by_cases first : demand.pages < (demand.add size).pages ∨ kind = some (sizeClass size)
      · have rested : ¬ (demand.add size).InOrder (some (sizeClass size)) rest := fun ordered => unordered ⟨first, ordered⟩
        have there : Latest (context.after size (some (ptr, idx))) middle ptr idx size := by
          by_cases grown : table.currentBasePage < middle.currentBasePage
          · exact (latest_of_grown meets.placed step grown).1
          · rcases first with more | same
            · exact absurd (cursor' ▸ cursor ▸ more) grown
            · obtain ⟨_, _, _, before, sameKind⟩ := top _ same
              exact (before.latest.bump step sameKind grown).1
        have onTop : OnTop (context.after size (some (ptr, idx))) middle ((ptr, idx), size) :=
          ⟨there, page, found, pageKind, within⟩
        have started (other : Nat) (page : FlexPage) (present : middle.slot other = some page) :
            ∃ opener ∈ prior ++ [((ptr, idx), size)], opener.1.1 = page.start := by
          rcases (served_in_page meets.placed step).2 other page present with ⟨old, before, same⟩ | ⟨_, same⟩
          · obtain ⟨opener, member, start⟩ := starts other old before
            exact ⟨opener, List.mem_append_left _ member, start.trans same⟩
          · exact ⟨_, List.mem_append_right _ (List.mem_singleton.mpr rfl), same.symm⟩
        obtain ⟨front, before, back, behind, split, revisited⟩ :=
          @ih _ _ _ _ _ (prior ++ [((ptr, idx), size)]) meets' (by simp) started
            (fun _ same => ⟨prior, _, rfl, onTop, Option.some.inj same⟩) rested returned
        refine ⟨front, before, back, behind, ?_, revisited⟩
        rw [← split, List.append_assoc]
        rfl
      · rw [not_or] at first
        have still : ¬ table.currentBasePage < middle.currentBasePage := by
          rw [cursor, cursor']
          exact first.1
        cases kind with
        | none =>
            cases step with
            | bump _ there =>
                rw [fresh rfl] at there
                cases there
            | fresh => exact absurd (Nat.lt_add_of_pos_right (sizeClass_nrPages_pos size)) still
        | some before =>
            obtain ⟨front, place, rfl, onTop, placeKind⟩ := top before rfl
            have other : sizeClass place.2 ≠ sizeClass size := by
              rw [placeKind]
              exact fun same => first.2 (same ▸ rfl)
            obtain ⟨revisited, there, inside, below⟩ := revisit_below meets step still onTop other
            obtain ⟨kept, final', same⟩ := allocEach_keeps meets' returned there
            have opened : ∃ opener ∈ front, opener.1.1 = revisited.start := by
              have present : ∃ old, table.slot idx = some old := by
                cases step with
                | bump _ before => exact ⟨_, before⟩
                | fresh => exact absurd (Nat.lt_add_of_pos_right (sizeClass_nrPages_pos size)) still
              obtain ⟨old, present⟩ := present
              obtain ⟨_, again, _, start, _⟩ := step.keeps meets.placed.indexed (sizeClass_nrPages_pos size) present
              cases again.symm.trans there
              obtain ⟨opener, member, first⟩ := starts idx old present
              rcases List.mem_append.mp member with earlier | last
              · exact ⟨opener, earlier, first.trans start.symm⟩
              · have positive : 0 < revisited.size := by
                  rw [FlexPage.size_of_nrPages]
                  exact Nat.mul_pos (meets'.placed.nonempty there) basePageSize_pos
                rw [List.mem_singleton.mp last] at first
                simp only [Span.stop, FlexPage.range] at below
                omega
            refine ⟨front, place, ((ptr, idx), size), places later rest, ?_, kept, final', ?_, ?_, ?_⟩
            · rw [List.append_assoc]
              rfl
            · rw [same]
              exact inside
            · rw [same]
              exact below
            · have start : kept.start = revisited.start := congrArg Span.start same
              rw [start]
              exact opened

end Mm

end UwUGC
