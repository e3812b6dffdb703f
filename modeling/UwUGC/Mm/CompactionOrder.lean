import UwUGC.Mm.Compaction
import UwUGC.Mm.PageRanges

/-! Where the objects of a compaction go: each page starts with one, and they lie in the order
they come in as long as none goes back to an older page. -/

set_option autoImplicit false

namespace UwUGC

open PageTable

namespace Mm

/-- An object that opens no page comes right behind one of its page class. -/
def Demand.InOrder : Demand → Option FlexPageKind → List Nat → Prop
  | _, _, [] => True
  | demand, last, size :: rest =>
      (demand.pages < (demand.add size).pages ∨ last = some (sizeClass size)) ∧
        (demand.add size).InOrder (some (sizeClass size)) rest

/-- No object of a compaction goes back to a page that was opened before the last one. -/
def InPageOrder (sizes : List Nat) : Prop := Demand.none.InOrder none sizes

def Demand.decideInOrder : (demand : Demand) → (last : Option FlexPageKind) → (sizes : List Nat) →
    Decidable (demand.InOrder last sizes)
  | _, _, [] => .isTrue trivial
  | demand, last, size :: rest =>
      match Demand.decideInOrder (demand.add size) (some (sizeClass size)) rest with
      | .isTrue later =>
          if first : demand.pages < (demand.add size).pages ∨ last = some (sizeClass size) then .isTrue ⟨first, later⟩
          else .isFalse fun both => first both.1
      | .isFalse later => .isFalse fun both => later both.2

instance (sizes : List Nat) : Decidable (InPageOrder sizes) := Demand.decideInOrder .none none sizes

/-- What was served last lies at the end of the page that was opened last. -/
structure Latest (context : Context) (table : PageTable) (ptr idx size : Nat) : Prop where
  page : ∃ page, table.slot idx = some page ∧ idx + page.nrPages = table.currentBasePage ∧
    page.start + page.usedBytes = ptr + size
  small : sizeClass size = .small → context.localBufferPage = some idx
  medium : sizeClass size = .medium → table.mediumBufferPage = some idx

theorem sizeClass_eq_medium {size : Nat} : sizeClass size = .medium ↔
    ¬ size < FlexPageKind.small.maxObjectSize ∧ size < FlexPageKind.medium.maxObjectSize := by
  unfold sizeClass
  split
  · simp_all
  · split <;> simp_all

variable {context : Context} {table final : PageTable} {demand : Demand} {ptr idx size : Nat}

theorem buffer_eq_some (selected : context.buffer table size = some idx) :
    (sizeClass size = .small ∧ context.localBufferPage = some idx) ∨
      (sizeClass size = .medium ∧ table.mediumBufferPage = some idx) := by
  unfold Context.buffer at selected
  split at selected
  · next small => exact .inl ⟨sizeClass_eq_small.mpr small, selected⟩
  · next large =>
      unfold directBuffer at selected
      split at selected
      · next medium => exact .inr ⟨sizeClass_eq_medium.mpr ⟨large, medium⟩, selected⟩
      · cases selected

section Step

variable (placed : table.Placed)
  (step : Allocates (sizeClass size) (context.buffer table size) (Context.hasRoom size) size table
    (some (ptr, idx)) final)

include placed step

/-- A page that is opened for a request is the last one, and starts with it. -/
theorem latest_of_grown (grown : table.currentBasePage < final.currentBasePage) :
    Latest (context.after size (some (ptr, idx))) final ptr idx size ∧
      ptr = table.baseAddr + table.currentBasePage * basePageSize ∧ idx = table.currentBasePage := by
  cases step with
  | bump => exact absurd grown (Nat.lt_irrefl _)
  | fresh _ available nonnull free =>
      have positive := sizeClass_nrPages_pos size
      have bound : table.currentBasePage < table.pageTable.length := by
        rw [placed.length]
        omega
      have found := (slot_opened bound (sizeClass size) size table.currentBasePage).trans (if_pos rfl)
      refine ⟨⟨⟨_, found, rfl, rfl⟩, ?_, ?_⟩, rfl, rfl⟩
      · intro small
        rw [Context.after_small context (sizeClass_eq_small.mp small)]
      · intro medium
        simp only [PageTable.opened, medium, if_true]

omit placed in
theorem Latest.bump {last lastPtr lastIdx : Nat} (latest : Latest context table lastPtr lastIdx last)
    (same : sizeClass last = sizeClass size) (still : ¬ table.currentBasePage < final.currentBasePage) :
    Latest (context.after size (some (ptr, idx))) final ptr idx size ∧ lastPtr + last = ptr := by
  cases step with
  | fresh =>
      have positive := sizeClass_nrPages_pos size
      exact absurd (Nat.lt_add_of_pos_right positive) still
  | @bump _ page selected found room free =>
      obtain ⟨old, there, top, stop⟩ := latest.page
      have one : idx = lastIdx := by
        rcases buffer_eq_some selected with ⟨small, cached⟩ | ⟨medium, cached⟩
        · have before := latest.small (same.trans small)
          rw [cached] at before
          exact Option.some.inj before
        · have before := latest.medium (same.trans medium)
          rw [cached] at before
          exact Option.some.inj before
      subst one
      rw [found] at there
      cases there
      refine ⟨⟨⟨_, (slot_bumped found size _).trans (if_pos rfl), top, (Nat.add_assoc _ _ _).symm⟩, ?_, ?_⟩, stop.symm⟩
      · intro small
        rw [Context.after_small context (sizeClass_eq_small.mp small)]
      · intro medium
        rcases buffer_eq_some selected with ⟨small, _⟩ | ⟨_, cached⟩
        · rw [medium] at small
          cases small
        · exact cached

/-- What is served lies in a page, and the page starts with something that was served. -/
theorem served_in_page :
    (∃ page, final.slot idx = some page ∧ (Span.mk ptr size).Within page.usedRange) ∧
      ∀ other page, final.slot other = some page → (∃ old, table.slot other = some old ∧ old.start = page.start) ∨
        (other = idx ∧ page.start = ptr) := by
  have positive := sizeClass_nrPages_pos size
  refine ⟨step.served placed positive, ?_⟩
  intro other page there
  cases step with
  | @bump _ old selected found room free =>
      rw [slot_bumped found] at there
      split at there
      · next same =>
          cases there
          exact .inl ⟨old, same ▸ found, rfl⟩
      · exact .inl ⟨page, there, rfl⟩
  | fresh _ available nonnull free =>
      have bound : table.currentBasePage < table.pageTable.length := by
        rw [placed.length]
        omega
      rw [slot_opened bound] at there
      split at there
      · next same =>
          cases there
          exact .inr ⟨same, rfl⟩
      · exact .inl ⟨page, there, rfl⟩

end Step

theorem Latest.below {last lastPtr lastIdx : Nat} (latest : Latest context table lastPtr lastIdx last)
    (placed : table.Placed) : lastPtr + last ≤ table.baseAddr + table.currentBasePage * basePageSize := by
  obtain ⟨page, found, top, stop⟩ := latest.page
  have start := placed.start found
  have used := placed.used found
  rw [FlexPage.size_of_nrPages, FlexPage.used] at used
  rw [← top, Nat.add_mul, ← stop, start]
  omega

theorem allocEach_concat {sizes : List Nat} {served : List (Nat × Nat)} {context middle last : Context}
    {table between final : PageTable} {place : Nat × Nat}
    (returned : context.allocEach table sizes = .ok (served, middle, between))
    (call : middle.allocFromPageTable between size = .ok (some place, last, final)) :
    context.allocEach table (sizes ++ [size]) = .ok (served ++ [place], last, final) := by
  induction sizes generalizing context table served with
  | nil =>
      cases returned
      simp [Context.allocEach, call, bind, Except.bind]
  | cons first rest ih =>
      simp only [Context.allocEach, bind_eq_ok, unwrap_eq_ok, Prod.exists, Except.ok.injEq, Prod.mk.injEq] at returned
      obtain ⟨_, after, there, head, ptr, idx, rfl, later, _, _, tail, rfl, rfl, rfl⟩ := returned
      simp only [List.cons_append, Context.allocEach, head, ih tail, unwrap_some, bind, Except.bind]

def places (served : List (Nat × Nat)) (sizes : List Nat) : List ((Nat × Nat) × Nat) := served.zip sizes

theorem allocEach_cons {sizes : List Nat} {served : List (Nat × Nat)} {last : Context} (meets : Meets context table demand)
    (returned : context.allocEach table (size :: sizes) = .ok (served, last, final)) :
    ∃ ptr idx middle later, served = (ptr, idx) :: later ∧
      Allocates (sizeClass size) (context.buffer table size) (Context.hasRoom size) size table (some (ptr, idx)) middle ∧
      Meets (context.after size (some (ptr, idx))) middle (demand.add size) ∧
      (context.after size (some (ptr, idx))).allocEach middle sizes = .ok (later, last, final) := by
  simp only [Context.allocEach, bind_eq_ok, unwrap_eq_ok, Prod.exists, Except.ok.injEq, Prod.mk.injEq] at returned
  obtain ⟨_, after, middle, call, ptr, idx, rfl, later, _, _, rest, rfl, rfl, rfl⟩ := returned
  obtain ⟨predicted, rfl⟩ := meets.step call
  obtain ⟨_, step, _⟩ := (Context.allocFromPageTable_eq_ok meets.placed.indexed meets.fits).mp call
  rcases predicted with ⟨none, _⟩ | ⟨_, same, _, meets'⟩
  · cases none
  · cases same
    exact ⟨ptr, idx, middle, later, rfl, step, meets', rest⟩

/-- In page order the places ascend. -/
theorem allocEach_ascending {sizes : List Nat} {served : List (Nat × Nat)} {context last : Context} {table : PageTable}
    {demand : Demand} {kind : Option FlexPageKind} {floor : Nat} (meets : Meets context table demand)
    (floored : floor ≤ table.baseAddr + table.currentBasePage * basePageSize)
    (latest : ∀ before, kind = some before → ∃ ptr idx size, Latest context table ptr idx size ∧
      sizeClass size = before ∧ floor ≤ ptr + size)
    (ordered : demand.InOrder kind sizes) (returned : context.allocEach table sizes = .ok (served, last, final)) :
    (∀ place ∈ places served sizes, floor ≤ place.1.1) ∧
      (places served sizes).Pairwise fun left right => left.1.1 + left.2 ≤ right.1.1 := by
  induction sizes generalizing context table demand kind served floor with
  | nil =>
      cases returned
      exact ⟨by simp [places], .nil⟩
  | cons size rest ih =>
      obtain ⟨ptr, idx, middle, later, rfl, step, meets', returned⟩ := allocEach_cons meets returned
      obtain ⟨first, ordered⟩ := ordered
      have cursor : table.currentBasePage = demand.pages := meets.cursor
      have cursor' : middle.currentBasePage = (demand.add size).pages := meets'.cursor
      have here : Latest (context.after size (some (ptr, idx))) middle ptr idx size ∧ floor ≤ ptr := by
        by_cases grown : table.currentBasePage < middle.currentBasePage
        · obtain ⟨there, place, _⟩ := latest_of_grown meets.placed step grown
          exact ⟨there, place ▸ floored⟩
        · rcases first with more | same
          · exact absurd (cursor' ▸ cursor ▸ more) grown
          · obtain ⟨_, _, _, before, kind, above⟩ := latest _ same
            obtain ⟨there, stop⟩ := before.bump step kind grown
            exact ⟨there, stop ▸ above⟩
      obtain ⟨there, above⟩ := here
      have behind : (∀ place ∈ places later rest, ptr + size ≤ place.1.1) ∧
          (places later rest).Pairwise fun left right => left.1.1 + left.2 ≤ right.1.1 := by
        refine ih meets' (there.below meets'.placed) ?_ ordered returned
        intro before same
        cases same
        exact ⟨ptr, idx, size, there, rfl, Nat.le_refl _⟩
      refine ⟨?_, List.pairwise_cons.mpr ⟨fun place member => behind.1 place member, behind.2⟩⟩
      intro place member
      rcases List.mem_cons.mp member with same | inside
      · exact same ▸ above
      · exact Nat.le_trans above (Nat.le_trans (Nat.le_add_right _ _) (behind.1 place inside))

theorem allocEach_meets {sizes : List Nat} {served : List (Nat × Nat)} {context last : Context} {table : PageTable}
    {demand : Demand} (meets : Meets context table demand)
    (returned : context.allocEach table sizes = .ok (served, last, final)) : ∃ later, Meets last final later := by
  induction sizes generalizing context table demand served with
  | nil =>
      cases returned
      exact ⟨demand, meets⟩
  | cons size rest ih =>
      obtain ⟨_, _, _, _, _, _, meets', behind⟩ := allocEach_cons meets returned
      exact ih meets' behind

/-- Every place lies in its page, and every page that was opened starts with a place. -/
theorem allocEach_pages {sizes : List Nat} {served : List (Nat × Nat)} {context last : Context} {table : PageTable}
    {demand : Demand} (meets : Meets context table demand)
    (returned : context.allocEach table sizes = .ok (served, last, final)) :
    final.Placed ∧ final.baseAddr = table.baseAddr ∧ final.nrPages = table.nrPages ∧
    (∀ span, table.Holds span → final.Holds span) ∧
    (∀ place ∈ places served sizes, final.Holds ⟨place.1.1, place.2⟩) ∧
    ∀ idx page, final.slot idx = some page → (∃ old, table.slot idx = some old ∧ old.start = page.start) ∨
      ∃ place ∈ places served sizes, place.1.1 = page.start := by
  induction sizes generalizing context table demand served with
  | nil =>
      cases returned
      exact ⟨meets.placed, rfl, rfl, fun _ held => held, by simp [places], fun idx page found => .inl ⟨page, found, rfl⟩⟩
  | cons size rest ih =>
      obtain ⟨ptr, idx, middle, later, rfl, step, meets', returned⟩ := allocEach_cons meets returned
      have positive := sizeClass_nrPages_pos size
      obtain ⟨⟨page, found, within⟩, opened⟩ := served_in_page meets.placed step
      obtain ⟨placed, base, nrPages, holds, inPages, starts⟩ := ih meets' returned
      obtain ⟨sameBase, samePages, _⟩ := step.frame
      refine ⟨placed, base.trans sameBase, nrPages.trans samePages, ?_, ?_, ?_⟩
      · exact fun span held => holds span (held.keeps step meets.placed positive)
      · intro place member
        rcases List.mem_cons.mp member with same | inside
        · rw [same]
          exact holds _ ⟨idx, page, found, within⟩
        · exact inPages place inside
      · intro other page there
        rcases starts other page there with ⟨old, before, start⟩ | ⟨place, member, start⟩
        · rcases opened other old before with ⟨older, first, same⟩ | ⟨_, same⟩
          · exact .inl ⟨older, first, same.trans start⟩
          · exact .inr ⟨((ptr, idx), size), List.mem_cons_self, (same ▸ start : ptr = page.start)⟩
        · exact .inr ⟨place, List.mem_cons_of_mem _ member, start⟩

end Mm

end UwUGC
