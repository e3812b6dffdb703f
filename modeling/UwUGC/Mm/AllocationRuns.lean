import UwUGC.Mm.ContextProperties
import UwUGC.Mm.PageRanges

/-! Runs of allocation requests against one page table, through any number of
contexts and directly. What a request was served is never served again. -/

set_option autoImplicit false

namespace UwUGC

namespace Mm

/-- One request for `size` bytes, through the context `id` or directly. -/
inductive Request where
  | context (id : Nat) (size : Nat)
  | direct (size : Nat)
deriving DecidableEq, Repr

def Request.size : Request → Nat
  | context _ size => size
  | direct size => size

/-- What a successful request returned. -/
structure Grant where
  ptr : Nat
  size : Nat
  pageId : Nat
deriving DecidableEq, Repr

def Grant.range (grant : Grant) : Span := ⟨grant.ptr, grant.size⟩

/-- One page table with the contexts that are used with it. -/
@[ext] structure Allocator where
  table : PageTable
  contexts : Nat → Context

namespace Allocator

def new (baseAddr nrPages : Nat) : Allocator where
  table := PageTable.new baseAddr nrPages
  contexts := fun _ => Context.new

def call (allocator : Allocator) : Request → Except Panic (Option (Nat × Nat) × Allocator)
  | .context id size => do
      let (result, context, table) ← (allocator.contexts id).allocFromPageTable allocator.table size
      .ok (result, { table := table, contexts := Function.update allocator.contexts id context })
  | .direct size => do
      let (result, table) ← allocator.table.alloc size
      .ok (result, { allocator with table := table })

/-- The grant of a request, if it was served. -/
def granted (size : Nat) : Option (Nat × Nat) → List Grant
  | some (ptr, pageId) => [{ ptr := ptr, size := size, pageId := pageId }]
  | none => []

def calls (allocator : Allocator) : List Request → Except Panic (List Grant × Allocator)
  | [] => .ok ([], allocator)
  | request :: rest => do
      let (result, allocator) ← allocator.call request
      let (grants, allocator) ← allocator.calls rest
      .ok (granted request.size result ++ grants, allocator)

open PageTable

/-- One step of a request is one allocation of its page class. -/
inductive CallStep (allocator : Allocator) (size : Nat) (result : Option (Nat × Nat)) (final : Allocator) :
    Prop where
  | context {id : Nat}
      (step : Allocates (sizeClass size) ((allocator.contexts id).buffer allocator.table size)
        (Context.hasRoom size) size allocator.table result final.table)
      (contexts : final.contexts =
        Function.update allocator.contexts id ((allocator.contexts id).after size result))
  | direct
      (step : Allocates (directClass size) (allocator.table.directBuffer size)
        (fun page => size ≤ page.free) size allocator.table result final.table)
      (contexts : final.contexts = allocator.contexts)

theorem directClass_nrPages_pos (size : Nat) : 0 < (directClass size).nrPages := by
  unfold directClass
  split
  · simp
  · next large =>
      rw [FlexPageKind.nrPages_huge]
      exact divCeil_pos (Nat.not_lt.mp large)

/-- The table placed and tiled, with every cached index a small page of it. -/
structure Tiled (allocator : Allocator) : Prop where
  placed : allocator.table.Placed
  covered : allocator.table.Covered
  aligned : allocator.table.Aligned
  fits : ∀ id, (allocator.contexts id).Fits allocator.table

theorem call_step {allocator final : Allocator} {request : Request} {result : Option (Nat × Nat)}
    (tiled : allocator.Tiled) (returned : allocator.call request = .ok (result, final)) :
    request.size % 8 = 0 ∧ CallStep allocator request.size result final := by
  cases request with
  | context id size =>
      simp only [call, bind_eq_ok, Prod.exists, Except.ok.injEq, Prod.mk.injEq] at returned
      obtain ⟨_, context, table, served, rfl, rfl⟩ := returned
      obtain ⟨multiple, step, rfl⟩ :=
        (Context.allocFromPageTable_eq_ok tiled.placed.indexed (tiled.fits id)).mp served
      exact ⟨multiple, .context step rfl⟩
  | direct size =>
      simp only [call, bind_eq_ok, Prod.exists, Except.ok.injEq, Prod.mk.injEq] at returned
      obtain ⟨_, table, served, rfl, rfl⟩ := returned
      obtain ⟨multiple, step⟩ := (alloc_eq_ok tiled.placed.indexed.slotted).mp served
      exact ⟨multiple, .direct step rfl⟩

theorem CallStep.allocates {allocator final : Allocator} {size : Nat} {result : Option (Nat × Nat)}
    (step : CallStep allocator size result final) :
    ∃ kind buffer fits, 0 < kind.nrPages ∧
      Allocates kind buffer fits size allocator.table result final.table := by
  cases step with
  | context step _ => exact ⟨_, _, _, sizeClass_nrPages_pos size, step⟩
  | direct step _ => exact ⟨_, _, _, directClass_nrPages_pos size, step⟩

theorem CallStep.tiled {allocator final : Allocator} {size : Nat} {result : Option (Nat × Nat)}
    (step : CallStep allocator size result final) (tiled : allocator.Tiled) (multiple : size % 8 = 0) :
    final.Tiled := by
  obtain ⟨kind, buffer, fits, positive, allocates⟩ := step.allocates
  refine ⟨allocates.placed tiled.placed positive, allocates.covered tiled.placed tiled.covered positive,
    allocates.aligned tiled.placed tiled.aligned positive multiple, fun other => ?_⟩
  cases step with
  | @context id step contexts =>
      rw [contexts]
      by_cases same : other = id
      · subst same
        rw [Function.update_self]
        exact (tiled.fits other).after tiled.placed.indexed step
      · rw [Function.update_of_ne same]
        exact (tiled.fits other).keeps tiled.placed.indexed positive allocates
  | direct _ contexts =>
      rw [contexts]
      exact (tiled.fits other).keeps tiled.placed.indexed positive allocates

theorem CallStep.none_unchanged {allocator final : Allocator} {size : Nat}
    (step : CallStep allocator size none final) : final = allocator := by
  cases step with
  | context step contexts =>
      rw [Context.after_none, Function.update_eq_self] at contexts
      exact Allocator.ext step.none_unchanged contexts
  | direct step contexts => exact Allocator.ext step.none_unchanged contexts

/-- The grant lies in the used part of the page it names. -/
def InPage (table : PageTable) (grant : Grant) : Prop :=
  ∃ page, table.slot grant.pageId = some page ∧ grant.range.Within page.usedRange

/-- Grants served so far: each in its page, aligned, and pairwise separate. -/
structure Sound (allocator : Allocator) (grants : List Grant) : Prop where
  inPage : ∀ grant ∈ grants, InPage allocator.table grant
  aligned : ∀ grant ∈ grants, grant.ptr % 8 = 0
  separate : grants.Pairwise fun left right => left.range.Separate right.range

theorem InPage.keeps {table final : PageTable} {grant : Grant} (inside : InPage table grant)
    (placed : table.Placed) {kind : FlexPageKind} {buffer : Option Nat} {fits : FlexPage → Prop} {size : Nat}
    {result : Option (Nat × Nat)} (positive : 0 < kind.nrPages)
    (step : Allocates kind buffer fits size table result final) : InPage final grant := by
  obtain ⟨page, found, within⟩ := inside
  obtain ⟨later, there, grown⟩ := step.usedRange_keeps placed positive found
  exact ⟨later, there, within.trans grown⟩

/-- Granting once more keeps all grants in their pages, aligned and separate. -/
theorem Sound.grants {allocator final : Allocator} {grants : List Grant} (sound : Sound allocator grants)
    (tiled : allocator.Tiled) (base : allocator.table.baseAddr % 8 = 0) {size : Nat}
    (multiple : size % 8 = 0) {result : Option (Nat × Nat)} (step : CallStep allocator size result final) :
    Sound final (grants ++ granted size result) := by
  obtain ⟨kind, buffer, fits, positive, allocates⟩ := step.allocates
  have kept (grant : Grant) (member : grant ∈ grants) : InPage final.table grant :=
    (sound.inPage grant member).keeps tiled.placed positive allocates
  cases result with
  | none =>
      refine ⟨by simpa [granted] using kept, ?_, ?_⟩
      · simpa [granted] using sound.aligned
      · simpa [granted] using sound.separate
  | some served =>
      obtain ⟨ptr, idx⟩ := served
      obtain ⟨page, found, inside⟩ := allocates.served tiled.placed positive
      have placed := allocates.placed tiled.placed positive
      refine ⟨?_, ?_, ?_⟩
      · intro grant member
        rcases List.mem_append.mp member with old | new
        · exact kept grant old
        · have same : grant = ⟨ptr, size, idx⟩ := by simpa [granted] using new
          subst same
          exact ⟨page, found, inside⟩
      · intro grant member
        rcases List.mem_append.mp member with old | new
        · exact sound.aligned grant old
        · have same : grant = ⟨ptr, size, idx⟩ := by simpa [granted] using new
          subst same
          obtain ⟨serving, servingFound, bump, _, _⟩ := allocates.serves tiled.placed positive
          have used := (step.tiled tiled multiple).aligned servingFound
          have pageStart := placed.start servingFound
          rw [allocates.frame.1, basePageSize_eq] at pageStart
          change ptr % 8 = 0
          omega
      · refine List.pairwise_append.mpr ⟨sound.separate, by simp [granted], ?_⟩
        intro old oldMember grant new
        have same : grant = ⟨ptr, size, idx⟩ := by simpa [granted] using new
        subst same
        obtain ⟨oldPage, oldFound, within⟩ := sound.inPage old oldMember
        exact allocates.served_apart tiled.placed positive ⟨old.pageId, oldPage, oldFound, within⟩

/-- What a whole run of requests preserves. -/
theorem calls_preserve {requests : List Request} {allocator final : Allocator} {before grants : List Grant}
    (tiled : allocator.Tiled) (base : allocator.table.baseAddr % 8 = 0) (sound : Sound allocator before)
    (returned : allocator.calls requests = .ok (grants, final)) :
    final.Tiled ∧ Sound final (before ++ grants) ∧ final.table.baseAddr = allocator.table.baseAddr ∧
      final.table.nrPages = allocator.table.nrPages := by
  induction requests generalizing allocator before grants with
  | nil =>
      cases returned
      exact ⟨tiled, by simpa using sound, rfl, rfl⟩
  | cons request rest ih =>
      simp only [calls, bind_eq_ok, Prod.exists, Except.ok.injEq, Prod.mk.injEq] at returned
      obtain ⟨result, middle, called, later, _, ran, rfl, rfl⟩ := returned
      obtain ⟨multiple, step⟩ := call_step tiled called
      obtain ⟨_, _, _, _, allocates⟩ := step.allocates
      obtain ⟨sameBase, nrPages, _⟩ := allocates.frame
      obtain ⟨finalTiled, finalSound, finalBase, finalNr⟩ :=
        ih (step.tiled tiled multiple) (sameBase ▸ base) (sound.grants tiled base multiple step) ran
      exact ⟨finalTiled, by simpa only [List.append_assoc] using finalSound, finalBase.trans sameBase,
        finalNr.trans nrPages⟩

theorem slot_new (baseAddr nrPages idx : Nat) : (PageTable.new baseAddr nrPages).slot idx = none := by
  simp only [slot, PageTable.new, List.getElem?_replicate]
  split <;> rfl

theorem placed_new (baseAddr nrPages : Nat) : (PageTable.new baseAddr nrPages).Placed :=
  .of_empty (by simp [PageTable.new]) (slot_new baseAddr nrPages) rfl rfl

theorem Tiled.new (baseAddr nrPages : Nat) : (Allocator.new baseAddr nrPages).Tiled where
  placed := placed_new baseAddr nrPages
  covered := by
    intro k used
    cases used
  aligned := by
    intro idx page found
    rw [Allocator.new, slot_new] at found
    cases found
  fits := fun _ => Context.Fits.new _

/-- The pages present tile the used base pages, each at its own address and not overfull. -/
structure Tiling (table : PageTable) : Prop where
  start : ∀ {idx page}, table.slot idx = some page → page.start = table.baseAddr + idx * basePageSize
  within : ∀ {idx page}, table.slot idx = some page → idx + page.nrPages ≤ table.currentBasePage
  used : ∀ {idx page}, table.slot idx = some page → page.used ≤ page.size
  once : ∀ k < table.currentBasePage,
    ∃! idx, ∃ page, table.slot idx = some page ∧ idx ≤ k ∧ k < idx + page.nrPages

theorem Tiled.tiling {allocator : Allocator} (tiled : allocator.Tiled) : Tiling allocator.table where
  start := tiled.placed.start
  within := tiled.placed.within
  used := tiled.placed.used
  once := by
    intro k used
    obtain ⟨idx, page, found, lower, upper⟩ := tiled.covered k used
    refine ⟨idx, ⟨page, found, lower, upper⟩, ?_⟩
    rintro other ⟨otherPage, otherFound, otherLower, otherUpper⟩
    rcases Nat.lt_trichotomy other idx with before | same | behind
    · have := tiled.placed.separate otherFound found before
      omega
    · exact same
    · have := tiled.placed.separate found otherFound behind
      omega

/-- Off the null page every request whose size is a multiple of 8 returns. -/
theorem call_returns {allocator : Allocator} (tiled : allocator.Tiled) (nonnull : allocator.table.baseAddr ≠ 0)
    {request : Request} (multiple : request.size % 8 = 0) :
    ∃ result final, allocator.call request = .ok (result, final) := by
  cases request with
  | context id size =>
      obtain ⟨result, context, table, served⟩ := (tiled.fits id).returns tiled.placed.indexed nonnull
        (show size % 8 = 0 from multiple)
      exact ⟨result, _, by rw [call, served]; rfl⟩
  | direct size =>
      obtain ⟨result, table, step⟩ := direct_allocates tiled.placed.indexed nonnull size
      have served : allocator.table.alloc size = .ok (result, table) :=
        (alloc_eq_ok tiled.placed.indexed.slotted).mpr ⟨multiple, step⟩
      exact ⟨result, _, by rw [call, served]; rfl⟩

theorem calls_return {requests : List Request} {allocator : Allocator} (tiled : allocator.Tiled)
    (nonnull : allocator.table.baseAddr ≠ 0) (multiples : ∀ request ∈ requests, request.size % 8 = 0) :
    ∃ grants final, allocator.calls requests = .ok (grants, final) := by
  induction requests generalizing allocator with
  | nil => exact ⟨[], allocator, rfl⟩
  | cons request rest ih =>
      obtain ⟨result, middle, called⟩ := call_returns tiled nonnull (multiples request List.mem_cons_self)
      obtain ⟨multiple, step⟩ := call_step tiled called
      obtain ⟨_, _, _, _, allocates⟩ := step.allocates
      have base : middle.table.baseAddr ≠ 0 := by
        rw [allocates.frame.1]
        exact nonnull
      obtain ⟨grants, final, ran⟩ := ih (step.tiled tiled multiple) base
        fun later member => multiples later (List.mem_cons_of_mem _ member)
      refine ⟨granted request.size result ++ grants, final, ?_⟩
      simp only [calls, called, ran, bind, Except.bind]

/-- No run of requests is served overlapping memory. A run returns off the null
page; what it returned is separate, aligned, inside the memory of the table and
inside the page it names; the pages tile the used base pages; and a further
request that is refused changes nothing. -/
theorem calls_never_overlap (baseAddr nrPages : Nat) (requests : List Request)
    (base : baseAddr % 8 = 0) (multiples : ∀ request ∈ requests, request.size % 8 = 0) :
    (baseAddr ≠ 0 → ∃ grants final, (Allocator.new baseAddr nrPages).calls requests = .ok (grants, final)) ∧
      ∀ grants final, (Allocator.new baseAddr nrPages).calls requests = .ok (grants, final) →
        grants.Pairwise (fun left right => left.range.Separate right.range) ∧
        (∀ grant ∈ grants, grant.ptr % 8 = 0 ∧
          grant.range.Within ⟨baseAddr, nrPages * basePageSize⟩ ∧
          ∃ page, final.table.slot grant.pageId = some page ∧ grant.range.Within page.range) ∧
        Tiling final.table ∧
        ∀ request next, final.call request = .ok (none, next) → next = final := by
  have tiled := Tiled.new baseAddr nrPages
  refine ⟨fun nonnull => calls_return tiled nonnull multiples, ?_⟩
  intro grants final returned
  have empty : Sound (Allocator.new baseAddr nrPages) [] := ⟨by simp, by simp, .nil⟩
  obtain ⟨finalTiled, sound, sameBase, samePages⟩ := calls_preserve tiled base empty returned
  refine ⟨sound.separate, ?_, finalTiled.tiling, ?_⟩
  · intro grant member
    obtain ⟨page, found, inside⟩ := sound.inPage grant member
    have inPage := inside.trans (usedRange_within finalTiled.placed found)
    have inTable := page_within finalTiled.placed found
    rw [sameBase, samePages] at inTable
    exact ⟨sound.aligned grant member, inPage.trans inTable, page, found, inPage⟩
  · intro request next refused
    obtain ⟨_, step⟩ := call_step finalTiled refused
    exact step.none_unchanged

/-- A run through two contexts and directly that opens a page of every class. -/
theorem calls_never_overlap_mixed :
    ∃ grants final, (Allocator.new 4096 9).calls
        [.context 0 64, .context 1 262136, .direct 64, .context 0 4194304] = .ok (grants, final) ∧
      grants.Pairwise (fun left right => left.range.Separate right.range) ∧ Tiling final.table := by
  obtain ⟨returns, sound⟩ := calls_never_overlap 4096 9
    [.context 0 64, .context 1 262136, .direct 64, .context 0 4194304] (by decide) (by decide)
  obtain ⟨grants, final, ran⟩ := returns (by decide)
  obtain ⟨separate, _, tiling, _⟩ := sound grants final ran
  exact ⟨grants, final, ran, separate, tiling⟩

end Allocator

end Mm

end UwUGC
