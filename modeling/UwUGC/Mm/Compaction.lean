import UwUGC.Lib.NextFit
import UwUGC.Mm.AllocationRuns
import Mathlib.Data.Multiset.Defs

/-! Allocating the live objects one by one into a cleared page table, as the
marker does. The pages this takes depend on the order of the sizes alone. -/

set_option autoImplicit false

namespace UwUGC

namespace PageTable

/-- The load of a cached page. -/
def loadOf (table : PageTable) (buffer : Option Nat) : Option Nat :=
  (buffer.bind table.slot).map FlexPage.usedBytes

theorem Allocates.place {kind : FlexPageKind} {buffer : Option Nat} {fits : FlexPage → Prop} {size : Nat}
    {table final : PageTable} {result : Option (Nat × Nat)} {packing : NextFit}
    (step : Allocates kind buffer fits size table result final) (accepts : Nat → Nat → Bool)
    (placed : table.Placed)
    (positive : 0 < kind.nrPages) (load : loadOf table buffer = packing.load)
    (present : ∀ idx, buffer = some idx → ∃ page, table.slot idx = some page ∧ page.kind = kind)
    (agrees : ∀ page : FlexPage, page.kind = kind → page.used ≤ page.size →
      (fits page ↔ accepts page.usedBytes size = true)) :
    (result = none ∧ table.nrPages < table.currentBasePage + kind.nrPages ∧
        packing.place accepts size = ⟨packing.bins + 1, some size⟩) ∨
      ∃ ptr idx opened, result = some (ptr, idx) ∧ loadOf final (some idx) = (packing.place accepts size).load ∧
        (packing.place accepts size).bins = packing.bins + opened ∧
        final.currentBasePage = table.currentBasePage + kind.nrPages * opened := by
  have refused (noRoom : ∀ {idx page}, buffer = some idx → table.slot idx = some page → ¬ fits page) :
      packing.place accepts size = ⟨packing.bins + 1, some size⟩ := by
    refine NextFit.place_fresh ?_
    intro filled opened
    rw [← load] at opened
    cases selected : buffer with
    | none => simp [loadOf, selected] at opened
    | some idx =>
        obtain ⟨page, found, sameKind⟩ := present idx selected
        have same : page.usedBytes = filled := by simpa [loadOf, selected, found] using opened
        have full := noRoom selected found
        rw [agrees page sameKind (placed.used found), same] at full
        exact Bool.eq_false_iff.mpr full
  cases step with
  | full noRoom exhausted => exact .inl ⟨rfl, exhausted, refused noRoom⟩
  | @bump idx page selected found room =>
      obtain ⟨there, at_there, sameKind⟩ := present idx selected
      rw [found] at at_there
      cases at_there
      have filled : packing.load = some page.usedBytes := by
        rw [← load]
        simp [loadOf, selected, found]
      have accepted := (agrees page sameKind (placed.used found)).mp room
      have placing := NextFit.place_accepted filled accepted
      refine .inr ⟨_, idx, 0, rfl, ?_, by rw [placing, Nat.add_zero], rfl⟩
      rw [placing]
      simp [loadOf, slot_bumped found]
  | fresh noRoom available =>
      have bound : table.currentBasePage < table.pageTable.length := by
        rw [placed.length]
        omega
      have placing := refused noRoom
      refine .inr ⟨_, _, 1, rfl, ?_, by rw [placing], by rw [Nat.mul_one]; rfl⟩
      rw [placing]
      simp [loadOf, slot_opened bound]

theorem Allocates.load_other {kind : FlexPageKind} {buffer : Option Nat} {fits : FlexPage → Prop} {size : Nat}
    {table final : PageTable} {result : Option (Nat × Nat)}
    (step : Allocates kind buffer fits size table result final) (other : Option Nat)
    (placed : table.Placed) (positive : 0 < kind.nrPages)
    (present : ∀ idx, buffer = some idx → ∃ page, table.slot idx = some page ∧ page.kind = kind)
    (there : ∀ idx, other = some idx → ∃ page, table.slot idx = some page ∧ page.kind ≠ kind) :
    loadOf final other = loadOf table other := by
  cases selected : other with
  | none => rfl
  | some idx =>
      obtain ⟨page, found, differs⟩ := there idx selected
      have same : final.slot idx = table.slot idx := by
        cases served : result with
        | none =>
            rw [served] at step
            rw [step.none_unchanged]
        | some pair =>
            obtain ⟨ptr, target⟩ := pair
            rw [served] at step
            refine step.others placed positive ?_
            rintro rfl
            cases step with
            | bump buffered =>
                obtain ⟨_, at_idx, sameKind⟩ := present _ buffered
                rw [found] at at_idx
                cases at_idx
                exact differs sameKind
            | fresh =>
                have within := placed.within found
                have nonempty := placed.nonempty found
                omega
      simp only [loadOf, Option.bind_some, same]

theorem Allocates.medium_other {kind : FlexPageKind} {buffer : Option Nat} {fits : FlexPage → Prop}
    {size : Nat} {table final : PageTable} {result : Option (Nat × Nat)}
    (step : Allocates kind buffer fits size table result final) (other : kind ≠ .medium) :
    final.mediumBufferPage = table.mediumBufferPage := by
  cases step with
  | full => rfl
  | bump => rfl
  | fresh => exact if_neg other

theorem Allocates.medium_served {fits : FlexPage → Prop} {size : Nat} {table final : PageTable} {ptr idx : Nat}
    (step : Allocates .medium table.mediumBufferPage fits size table (some (ptr, idx)) final) :
    final.mediumBufferPage = some idx := by
  cases step with
  | bump selected => exact selected
  | fresh => simp [PageTable.opened]

end PageTable

namespace Mm

open PageTable

/-- `alloc_from_page_table(..).unwrap()` for each size in turn. -/
def Context.allocEach (context : Context) (table : PageTable) :
    List Nat → Except Panic (List (Nat × Nat) × Context × PageTable)
  | [] => .ok ([], context, table)
  | size :: rest => do
      let (result, context, table) ← context.allocFromPageTable table size
      let served ← unwrap result
      let (later, context, table) ← context.allocEach table rest
      .ok (served :: later, context, table)

/-- The room the pages of a context have been asked for: a next-fit packing of
the small sizes, one of the medium sizes, and the base pages of the huge ones. -/
structure Demand where
  small : NextFit
  medium : NextFit
  huge : Nat
deriving DecidableEq, Repr

namespace Demand

def none : Demand := ⟨NextFit.empty, NextFit.empty, 0⟩

/-- A small page refuses the size that would fill it exactly. -/
def smallAccepts (load size : Nat) : Bool := decide (load + size < basePageSize)

def mediumAccepts (load size : Nat) : Bool := decide (load + size ≤ 4 * basePageSize)

def add (demand : Demand) (size : Nat) : Demand :=
  if size < FlexPageKind.small.maxObjectSize then
    { demand with small := demand.small.place smallAccepts size }
  else if size < FlexPageKind.medium.maxObjectSize then
    { demand with medium := demand.medium.place mediumAccepts size }
  else { demand with huge := demand.huge + divCeil size basePageSize }

/-- The base pages taken. -/
def pages (demand : Demand) : Nat := demand.small.bins + 4 * demand.medium.bins + demand.huge

def ofSizes (sizes : List Nat) : Demand := sizes.foldl add none

theorem pages_le_add (demand : Demand) (size : Nat) : demand.pages ≤ (demand.add size).pages := by
  unfold add pages
  split
  · have := NextFit.bins_le_place smallAccepts demand.small size
    simp only
    omega
  · split
    · have := NextFit.bins_le_place mediumAccepts demand.medium size
      simp only
      omega
    · simp only
      omega

theorem pages_le_foldl (sizes : List Nat) (demand : Demand) :
    demand.pages ≤ (sizes.foldl add demand).pages := by
  induction sizes generalizing demand with
  | nil => exact Nat.le_refl _
  | cons size rest ih => exact Nat.le_trans (pages_le_add demand size) (ih _)

end Demand

/-- The table and the context as the demand says. -/
structure Meets (context : Context) (table : PageTable) (demand : Demand) : Prop where
  placed : table.Placed
  fits : context.Fits table
  cursor : table.currentBasePage = demand.pages
  small : loadOf table context.localBufferPage = demand.small.load
  medium : loadOf table table.mediumBufferPage = demand.medium.load


theorem hasRoom_small {page : FlexPage} {size : Nat} (kind : page.kind = .small)
    (used : page.used ≤ page.size) : size < page.free ↔ Demand.smallAccepts page.usedBytes size = true := by
  simp only [FlexPage.free, FlexPage.used, FlexPage.size, kind, FlexPageKind.nrPages_small,
    Demand.smallAccepts, decide_eq_true_eq] at used ⊢
  omega

theorem hasRoom_medium {page : FlexPage} {size : Nat} (kind : page.kind = .medium)
    (used : page.used ≤ page.size) : size ≤ page.free ↔ Demand.mediumAccepts page.usedBytes size = true := by
  simp only [FlexPage.free, FlexPage.used, FlexPage.size, kind, FlexPageKind.nrPages_medium,
    Demand.mediumAccepts, decide_eq_true_eq] at used ⊢
  omega

/-- The outcome of one call as the demand predicts it. -/
def Predicted (context : Context) (table : PageTable) (demand : Demand) (size : Nat)
    (result : Option (Nat × Nat)) (final : PageTable) : Prop :=
  (result = none ∧ table.nrPages < (demand.add size).pages) ∨
    (∃ served, result = some served ∧ (demand.add size).pages ≤ table.nrPages ∧
      Meets (context.after size (some served)) final (demand.add size))

theorem Meets.small_step {context : Context} {table final : PageTable} {demand : Demand} {size : Nat}
    {result : Option (Nat × Nat)} (meets : Meets context table demand)
    (small : size < FlexPageKind.small.maxObjectSize)
    (step : Allocates .small context.localBufferPage (fun page => size < page.free) size table result final)
    (fits : (context.after size result).Fits final) : Predicted context table demand size result final := by
  have positive : 0 < FlexPageKind.small.nrPages := by simp
  have placed := step.placed meets.placed positive
  have frame := step.frame
  have cursor := meets.cursor
  have bounded := placed.bounded
  have placing := step.place Demand.smallAccepts meets.placed positive meets.small meets.fits
    fun page kind used => hasRoom_small kind used
  have medium := step.load_other table.mediumBufferPage meets.placed positive meets.fits (by
    intro idx selected
    obtain ⟨page, found, kind⟩ := meets.placed.medium selected
    exact ⟨page, found, by simp [kind]⟩)
  have pages : (demand.add size).pages =
      (demand.small.place Demand.smallAccepts size).bins + 4 * demand.medium.bins + demand.huge := by
    simp only [Demand.add, if_pos small, Demand.pages]
  rw [FlexPageKind.nrPages_small] at placing
  simp only [Demand.pages] at cursor
  rcases placing with ⟨rfl, exhausted, bins⟩ | ⟨ptr, idx, opened, rfl, load, bins, moved⟩
  · refine .inl ⟨rfl, ?_⟩
    rw [pages, bins]
    simp only
    omega
  · refine .inr ⟨(ptr, idx), rfl, by rw [pages]; omega, placed, fits, by rw [pages]; omega, ?_, ?_⟩
    · rw [Context.after_small context small, load, Demand.add, if_pos small]
    · rw [step.medium_other (by simp), medium, meets.medium, Demand.add, if_pos small]

theorem Meets.medium_step {context : Context} {table final : PageTable} {demand : Demand} {size : Nat}
    {result : Option (Nat × Nat)} (meets : Meets context table demand)
    (small : ¬ size < FlexPageKind.small.maxObjectSize) (medium : size < FlexPageKind.medium.maxObjectSize)
    (step : Allocates .medium table.mediumBufferPage (fun page => size ≤ page.free) size table result final)
    (fits : (context.after size result).Fits final) : Predicted context table demand size result final := by
  have positive : 0 < FlexPageKind.medium.nrPages := by simp
  have placed := step.placed meets.placed positive
  have frame := step.frame
  have cursor := meets.cursor
  have bounded := placed.bounded
  have present (idx : Nat) (selected : table.mediumBufferPage = some idx) := meets.placed.medium selected
  have placing := step.place Demand.mediumAccepts meets.placed positive meets.medium present
    fun page kind used => hasRoom_medium kind used
  have cached := step.load_other context.localBufferPage meets.placed positive present (by
    intro idx selected
    obtain ⟨page, found, kind⟩ := meets.fits idx selected
    exact ⟨page, found, by simp [kind]⟩)
  have pages : (demand.add size).pages =
      demand.small.bins + 4 * (demand.medium.place Demand.mediumAccepts size).bins + demand.huge := by
    simp only [Demand.add, if_neg small, if_pos medium, Demand.pages]
  rw [FlexPageKind.nrPages_medium] at placing
  simp only [Demand.pages] at cursor
  rcases placing with ⟨rfl, exhausted, bins⟩ | ⟨ptr, idx, opened, rfl, load, bins, moved⟩
  · refine .inl ⟨rfl, ?_⟩
    rw [pages, bins]
    simp only
    omega
  · refine .inr ⟨(ptr, idx), rfl, by rw [pages]; omega, placed, fits, by rw [pages]; omega, ?_, ?_⟩
    · rw [Context.after_large context small, cached, meets.small, Demand.add, if_neg small, if_pos medium]
    · rw [step.medium_served, load, Demand.add, if_neg small, if_pos medium]

theorem Meets.huge_step {context : Context} {table final : PageTable} {demand : Demand} {size : Nat}
    {result : Option (Nat × Nat)} (meets : Meets context table demand)
    (small : ¬ size < FlexPageKind.small.maxObjectSize) (medium : ¬ size < FlexPageKind.medium.maxObjectSize)
    (step : Allocates (.huge (divCeil size basePageSize)) none (fun page => size ≤ page.free) size table
      result final)
    (fits : (context.after size result).Fits final) : Predicted context table demand size result final := by
  have positive : 0 < (FlexPageKind.huge (divCeil size basePageSize)).nrPages := by
    rw [FlexPageKind.nrPages_huge]
    exact divCeil_pos (Nat.not_lt.mp medium)
  have placed := step.placed meets.placed positive
  have cursor := meets.cursor
  have cached := step.load_other context.localBufferPage meets.placed positive (by simp) (by
    intro idx selected
    obtain ⟨page, found, kind⟩ := meets.fits idx selected
    exact ⟨page, found, by simp [kind]⟩)
  have shared := step.load_other table.mediumBufferPage meets.placed positive (by simp) (by
    intro idx selected
    obtain ⟨page, found, kind⟩ := meets.placed.medium selected
    exact ⟨page, found, by simp [kind]⟩)
  have same := step.medium_other (by simp)
  have added : demand.add size = { demand with huge := demand.huge + divCeil size basePageSize } := by
    rw [Demand.add, if_neg small, if_neg medium]
  have pages : (demand.add size).pages = demand.pages + divCeil size basePageSize := by
    rw [added]
    simp only [Demand.pages, Nat.add_assoc]
  cases step with
  | full _ exhausted =>
      rw [FlexPageKind.nrPages_huge] at exhausted
      exact .inl ⟨rfl, by rw [pages]; omega⟩
  | bump selected => cases selected
  | fresh _ available =>
      rw [FlexPageKind.nrPages_huge] at available
      refine .inr ⟨_, rfl, by rw [pages]; omega, placed, fits, ?_, ?_, ?_⟩
      · rw [opened_currentBasePage, FlexPageKind.nrPages_huge, pages, cursor]
      · rw [Context.after_large context small, cached, meets.small, added]
      · rw [same, shared, meets.medium, added]

theorem Meets.step {context context' : Context} {table final : PageTable} {demand : Demand} {size : Nat}
    {result : Option (Nat × Nat)} (meets : Meets context table demand)
    (returned : context.allocFromPageTable table size = .ok (result, context', final)) :
    Predicted context table demand size result final ∧ context' = context.after size result := by
  obtain ⟨_, step, rfl⟩ := (Context.allocFromPageTable_eq_ok meets.placed.indexed meets.fits).mp returned
  refine ⟨?_, rfl⟩
  have fits := meets.fits.after meets.placed.indexed step
  by_cases small : size < FlexPageKind.small.maxObjectSize
  · have room : Context.hasRoom size = fun page => size < page.free := by
      funext page
      rw [Context.hasRoom, if_pos small]
    rw [sizeClass, if_pos small, Context.buffer, if_pos small, room] at step
    exact meets.small_step small step fits
  · have room : Context.hasRoom size = fun page => size ≤ page.free := by
      funext page
      rw [Context.hasRoom, if_neg small]
    rw [sizeClass, if_neg small, Context.buffer, if_neg small, room, directBuffer] at step
    by_cases medium : size < FlexPageKind.medium.maxObjectSize
    · rw [if_pos medium, if_pos medium] at step
      exact meets.medium_step small medium step fits
    · rw [if_neg medium, if_neg medium] at step
      exact meets.huge_step small medium step fits

/-- The marker gets through a list of sizes exactly when their demand fits. -/
theorem Meets.allocEach_returns_iff {sizes : List Nat} {context : Context} {table : PageTable} {demand : Demand}
    (meets : Meets context table demand) (nonnull : table.baseAddr ≠ 0)
    (multiples : ∀ size ∈ sizes, size % 8 = 0) :
    (∃ compacted, context.allocEach table sizes = .ok compacted) ↔
      (sizes.foldl Demand.add demand).pages ≤ table.nrPages := by
  induction sizes generalizing context table demand with
  | nil =>
      refine iff_of_true ⟨_, rfl⟩ ?_
      rw [List.foldl_nil, ← meets.cursor]
      exact meets.placed.bounded
  | cons size rest ih =>
      obtain ⟨result, final, step⟩ := meets.fits.allocates meets.placed.indexed nonnull size
      have returned := (Context.allocFromPageTable_eq_ok meets.placed.indexed meets.fits).mpr
        ⟨multiples size List.mem_cons_self, step, rfl⟩
      obtain ⟨base, nrPages, _⟩ := step.frame
      rcases (meets.step returned).1 with ⟨rfl, beyond⟩ | ⟨served, rfl, _, later⟩
      · -- The panic: the demand only grows from here.
        have grown := Demand.pages_le_foldl rest (demand.add size)
        refine iff_of_false ?_ (Nat.not_le.mpr (Nat.lt_of_lt_of_le beyond grown))
        rintro ⟨compacted, ran⟩
        simp only [Context.allocEach, returned, bind, Except.bind, unwrap] at ran
        cases ran
      · rw [List.foldl_cons, ← nrPages, ← ih later (base ▸ nonnull)
          fun other member => multiples other (List.mem_cons_of_mem _ member)]
        simp only [Context.allocEach, returned, bind, Except.bind, unwrap]
        constructor
        · rintro ⟨compacted, ran⟩
          split at ran
          · cases ran
          · next rested found => exact ⟨rested, found⟩
        · rintro ⟨compacted, ran⟩
          exact ⟨_, by rw [ran]⟩

/-- Sizes that were granted are multiples of 8. -/
theorem Allocator.calls_multiples {requests : List Request} {allocator final : Allocator} {grants : List Grant}
    (tiled : allocator.Tiled) (returned : allocator.calls requests = .ok (grants, final)) :
    ∀ grant ∈ grants, grant.size % 8 = 0 := by
  induction requests generalizing allocator grants with
  | nil =>
      cases returned
      simp
  | cons request rest ih =>
      simp only [calls, bind_eq_ok, Prod.exists, Except.ok.injEq, Prod.mk.injEq] at returned
      obtain ⟨result, middle, called, later, _, ran, rfl, rfl⟩ := returned
      obtain ⟨multiple, step⟩ := call_step tiled called
      intro grant member
      rcases List.mem_append.mp member with first | other
      · cases result with
        | none => cases first
        | some served =>
            have same : grant = ⟨served.1, request.size, served.2⟩ := by simpa [granted] using first
            rw [same]
            exact multiple
      · exact ih (step.tiled tiled multiple) ran grant other

theorem slot_clear (table : PageTable) (idx : Nat) : table.clear.slot idx = none := by
  simp only [slot, clear, List.getElem?_map]
  cases table.pageTable[idx]? <;> rfl

theorem placed_clear {table : PageTable} (length : table.pageTable.length = table.nrPages) :
    table.clear.Placed :=
  .of_empty (by simpa [clear] using length) (slot_clear table) rfl rfl

theorem Meets.clear {table : PageTable} (length : table.pageTable.length = table.nrPages) :
    Meets Context.new table.clear Demand.none where
  placed := placed_clear length
  fits := Context.Fits.new _
  cursor := rfl
  small := rfl
  medium := rfl

/-- Whatever was allocated in from-space, the live objects fit into a cleared
page table of the same size exactly when the packing of their sizes in marking
order takes no more base pages than it has. -/
theorem compaction_fits_iff {baseAddr nrPages : Nat} {requests : List Request} {grants : List Grant}
    {fromSpace : Allocator} {toSpace : PageTable} {visited : List Nat}
    (filled : (Allocator.new baseAddr nrPages).calls requests = .ok (grants, fromSpace))
    (live : visited.Subperm (grants.map Grant.size))
    (length : toSpace.pageTable.length = toSpace.nrPages) (sameSize : toSpace.nrPages = nrPages)
    (nonnull : toSpace.baseAddr ≠ 0) :
    (∃ compacted, Context.new.allocEach toSpace.clear visited = .ok compacted) ↔
      (Demand.ofSizes visited).pages ≤ nrPages := by
  rw [← sameSize]
  refine (Meets.clear length).allocEach_returns_iff nonnull ?_
  intro size member
  obtain ⟨grant, granted, rfl⟩ := List.mem_map.mp (live.subset member)
  exact Allocator.calls_multiples (Allocator.Tiled.new baseAddr nrPages) filled grant granted

/-- Two pages of small objects in an order that leaves little room behind. -/
def tightSizes : List Nat :=
  List.replicate 8 262136 ++ [56] ++ List.replicate 8 262136 ++ [56]

/-- The same objects with the two smallest first. -/
def looseSizes : List Nat := [56, 56] ++ List.replicate 16 262136

theorem tight_calls :
    ∃ grants fromSpace, (Allocator.new 4096 2).calls (tightSizes.map (.context 0)) = .ok (grants, fromSpace) ∧
      grants.map Grant.size = tightSizes := by
  have multiples : ∀ request ∈ tightSizes.map (Request.context 0), request.size % 8 = 0 := by
    decide
  obtain ⟨grants, final, ran⟩ := Allocator.calls_return (Allocator.Tiled.new 4096 2) (by decide) multiples
  have sizes : ((Allocator.new 4096 2).calls (tightSizes.map (.context 0))).map
      (fun returned => returned.1.map Grant.size) = .ok tightSizes := by
    decide +kernel
  rw [ran] at sizes
  exact ⟨grants, final, ran, Except.ok.inj sizes⟩

/-- The marker can run out of a to-space that is as large as the from-space was,
although every object of it was live before. -/
theorem compaction_overflows :
    ∃ grants fromSpace, (Allocator.new 4096 2).calls (tightSizes.map (.context 0)) = .ok (grants, fromSpace) ∧
      looseSizes.Subperm (grants.map Grant.size) ∧
      Context.new.allocEach (PageTable.new 8192 2).clear looseSizes = .error .unwrapNone := by
  obtain ⟨grants, final, ran, sizes⟩ := tight_calls
  refine ⟨grants, final, ran, ?_, by decide +kernel⟩
  rw [sizes]
  decide

/-- The order they were allocated in still fits. -/
theorem compaction_fits_tight :
    ∃ grants fromSpace, (Allocator.new 4096 2).calls (tightSizes.map (.context 0)) = .ok (grants, fromSpace) ∧
      ((∃ compacted, Context.new.allocEach (PageTable.new 8192 2).clear tightSizes = .ok compacted) ↔
        (Demand.ofSizes tightSizes).pages ≤ 2) := by
  obtain ⟨grants, final, ran, sizes⟩ := tight_calls
  have live : tightSizes.Subperm (grants.map Grant.size) := by
    rw [sizes]
  exact ⟨grants, final, ran, compaction_fits_iff ran live (by decide) rfl (by decide)⟩

end Mm

end UwUGC
