import UwUGC.Mm.AllocationThreads

/-! Allocation by several threads at once is linearizable: what the threads see could have come of calls
that are served one after the other. A call takes its effect where it bumps a page that was there before,
or where the cursor moves. -/

set_option autoImplicit false

namespace UwUGC.Mm

open PageTable AtomicObject

/-- A table and its contexts, called atomically. -/
abbrev AtomicAllocator := Calls Nat Nat (Option (Nat × Nat)) Allocator

/-- The size that a call asks for once it has found out where it would bump. -/
def Stage.inside : Stage → Option Nat
  | .idle | .entered _ => none
  | .look size _ | .refill size _ | .install size _ _ | .serve size _ => some size

theorem Context.buffer_eq (context : Context) (table : PageTable) (size : Nat) :
    context.buffer table size = match sizeClass size with
      | .small => context.localBufferPage
      | .medium => table.mediumBufferPage
      | .huge _ => none := by
  unfold buffer directBuffer sizeClass
  by_cases small : size < FlexPageKind.small.maxObjectSize
  · simp only [if_pos small]
  · by_cases medium : size < FlexPageKind.medium.maxObjectSize
    · simp only [if_neg small, if_pos medium]
    · simp only [if_neg small, if_neg medium]

theorem roomFor_iff {size : Nat} {page : FlexPage} :
    Threads.roomFor size page.free = true ↔ Context.hasRoom size page := by
  unfold Threads.roomFor Context.hasRoom
  by_cases small : size < FlexPageKind.small.maxObjectSize
  · simp only [sizeClass, if_pos small, decide_eq_true_eq]
  · by_cases medium : size < FlexPageKind.medium.maxObjectSize
    · simp only [sizeClass, if_neg small, if_pos medium, decide_eq_true_eq]
    · simp only [sizeClass, if_neg small, if_neg medium, decide_eq_true_eq]

theorem Context.hasRoom_le {size : Nat} {page : FlexPage} (room : hasRoom size page) : size ≤ page.free := by
  unfold hasRoom at room
  split at room
  · exact Nat.le_of_lt room
  · exact room

/-- Every class of pages has room for the objects that it is for. -/
theorem Context.hasRoom_opened (size start : Nat) : hasRoom size ⟨sizeClass size, start, 0⟩ := by
  have free := sizeClass_free size
  unfold hasRoom
  by_cases small : size < FlexPageKind.small.maxObjectSize
  · rw [if_pos small]
    simp only [FlexPage.free, FlexPage.size, FlexPage.used, sizeClass_eq_small.mpr small, FlexPageKind.nrPages_small,
      basePageSize_eq]
    rw [FlexPageKind.maxObjectSize_small] at small
    omega
  · rw [if_neg small]
    simpa only [FlexPage.free, FlexPage.size, FlexPage.used, Nat.sub_zero] using free

namespace Allocator

/-- A call that takes its effect at once. -/
def Effect (allocator : Allocator) (id size : Nat) (result : Option (Nat × Nat)) (final : Allocator) : Prop :=
  allocator.call (.context id size) = .ok (result, final)

/-- What the class of its size allows a call. -/
def Allocated (allocator : Allocator) (id size : Nat) (result : Option (Nat × Nat)) (table : PageTable) : Prop :=
  Allocates (sizeClass size) ((allocator.contexts id).buffer allocator.table size) (Context.hasRoom size) size
    allocator.table result table

def after (allocator : Allocator) (id size : Nat) (result : Option (Nat × Nat)) (table : PageTable) : Allocator where
  table := table
  contexts := Function.update allocator.contexts id ((allocator.contexts id).after size result)

/-- No page is cached by two contexts. -/
def Unshared (allocator : Allocator) : Prop :=
  ∀ left right idx, left ≠ right → (allocator.contexts left).localBufferPage = some idx →
    (allocator.contexts right).localBufferPage ≠ some idx

variable {allocator : Allocator} {id size : Nat} {result : Option (Nat × Nat)} {table : PageTable}

theorem Allocated.callStep (allocated : allocator.Allocated id size result table) :
    CallStep allocator size result (allocator.after id size result table) :=
  .context allocated rfl

theorem Allocated.effect (allocated : allocator.Allocated id size result table) (tiled : allocator.Tiled)
    (multiple : size % 8 = 0) : allocator.Effect id size result (allocator.after id size result table) := by
  have served : (allocator.contexts id).allocFromPageTable allocator.table size =
      .ok (result, (allocator.contexts id).after size result, table) :=
    (Context.allocFromPageTable_eq_ok tiled.placed.indexed (tiled.fits id)).mpr ⟨multiple, allocated, rfl⟩
  rw [Effect, call, served]
  rfl

/-- A context keeps its page, or it gets one that nobody had. -/
theorem Allocated.unshared (allocated : allocator.Allocated id size result table) (tiled : allocator.Tiled)
    (unshared : allocator.Unshared) : (allocator.after id size result table).Unshared := by
  have below {other idx : Nat} (cached : (allocator.contexts other).localBufferPage = some idx) :
      idx < allocator.table.currentBasePage := by
    obtain ⟨page, found, _⟩ := tiled.fits other idx cached
    exact tiled.placed.indexed.below found
  -- What the context of the call has behind it.
  have own {idx : Nat} (cached : ((allocator.contexts id).after size result).localBufferPage = some idx) :
      (allocator.contexts id).localBufferPage = some idx ∨ idx = allocator.table.currentBasePage := by
    by_cases small : size < FlexPageKind.small.maxObjectSize
    · cases allocated with
      | full =>
          rw [Context.after_none] at cached
          exact .inl cached
      | bump selected =>
          rw [Context.after_small _ small] at cached
          cases cached
          rw [Context.buffer_eq, sizeClass_eq_small.mpr small] at selected
          exact .inl selected
      | fresh =>
          rw [Context.after_small _ small] at cached
          cases cached
          exact .inr rfl
    · rw [Context.after_large _ small] at cached
      exact .inl cached
  intro left right idx different cached there
  simp only [after] at cached there
  by_cases mine : left = id
  · subst mine
    rw [Function.update_self] at cached
    rw [Function.update_of_ne (Ne.symm different)] at there
    rcases own cached with old | rfl
    · exact unshared left right idx different old there
    · exact absurd (below there) (Nat.lt_irrefl _)
  · rw [Function.update_of_ne mine] at cached
    by_cases yours : right = id
    · subst yours
      rw [Function.update_self] at there
      rcases own there with old | rfl
      · exact unshared left right idx different cached old
      · exact absurd (below cached) (Nat.lt_irrefl _)
    · rw [Function.update_of_ne yours] at there
      exact unshared left right idx different cached there

end Allocator

/-- The page that a call has opened. It is as if bumped already; `there` is what its slot shows. -/
structure Opening (threads : Threads) (calls : AtomicAllocator) (id size idx : Nat) (there : Option FlexPage) :
    Prop where
  answered : calls.status id = .answered size
    (some (calls.object.table.baseAddr + idx * basePageSize, idx))
  found : threads.shared.table.slot idx = there
  opened : calls.object.table.slot idx =
    some ⟨sizeClass size, calls.object.table.baseAddr + idx * basePageSize, size⟩
  small : sizeClass size = .small → (calls.object.contexts id).localBufferPage = some idx
  medium : sizeClass size = .medium → calls.object.table.mediumBufferPage = some idx

/-- How the call of a thread stands to the atomic one. -/
inductive Follows (threads : Threads) (calls : AtomicAllocator) (id : Nat) : Prop where
  | idle (stage : threads.stage id = .idle) (status : calls.status id = .idle)
  | entered {size : Nat} (stage : threads.stage id = .entered size) (status : calls.status id = .called size)
      (multiple : size % 8 = 0)
  | look {size idx : Nat} (stage : threads.stage id = .look size idx) (status : calls.status id = .called size)
      (multiple : size % 8 = 0)
      (buffer : (calls.object.contexts id).buffer calls.object.table size = some idx)
  | refill {size : Nat} {tested : Bool} (stage : threads.stage id = .refill size tested)
      (status : calls.status id = .called size) (multiple : size % 8 = 0)
      (noRoom : ∀ {idx page}, (calls.object.contexts id).buffer calls.object.table size = some idx →
        calls.object.table.slot idx = some page → ¬ Context.hasRoom size page)
  | installing {size idx : Nat} {tested : Bool} (stage : threads.stage id = .install size idx tested)
      (opening : Opening threads calls id size idx none)
  | opened {size idx : Nat} (stage : threads.stage id = .look size idx ∨ threads.stage id = .serve size idx)
      (opening : Opening threads calls id size idx
        (some ⟨sizeClass size, calls.object.table.baseAddr + idx * basePageSize, 0⟩))

/-- The pages that a call under way may bump. -/
inductive Uses (threads : Threads) (calls : AtomicAllocator) (id idx : Nat) : Prop where
  | buffer {size : Nat} (inside : (threads.stage id).inside = some size) (called : calls.status id = .called size)
      (selected : (calls.object.contexts id).buffer calls.object.table size = some idx)
  | opened {size ptr : Nat} (answered : calls.status id = .answered size (some (ptr, idx)))

/-- The table of the threads is that of the atomic calls, but for the pages that are being opened. -/
structure Refines (threads : Threads) (calls : AtomicAllocator) : Prop where
  base : threads.shared.table.baseAddr = calls.object.table.baseAddr
  cursor : threads.shared.table.currentBasePage = calls.object.table.currentBasePage
  nrPages : threads.shared.table.nrPages = calls.object.table.nrPages
  length : threads.shared.table.pageTable.length = calls.object.table.nrPages
  nonnull : calls.object.table.baseAddr ≠ 0
  tiled : calls.object.Tiled
  unshared : calls.object.Unshared
  follows : ∀ id, Follows threads calls id
  once : ∀ left right leftSize rightSize leftPtr rightPtr idx,
    calls.status left = .answered leftSize (some (leftPtr, idx)) →
    calls.status right = .answered rightSize (some (rightPtr, idx)) → left = right
  slots : ∀ idx, (∀ id size ptr, calls.status id ≠ .answered size (some (ptr, idx))) →
    threads.shared.table.slot idx = calls.object.table.slot idx
  contexts : ∀ id,
    (∀ size idx tested, threads.stage id = .install size idx tested → sizeClass size ≠ .small) →
      threads.shared.contexts id = calls.object.contexts id
  medium : (∀ id size idx tested, threads.stage id = .install size idx tested → sizeClass size ≠ .medium) →
    threads.shared.table.mediumBufferPage = calls.object.table.mediumBufferPage
  locked : ∀ id, threads.bufferLock = some id ↔
    ∃ size, (threads.stage id).inside = some size ∧ sizeClass size = .medium

variable {threads next : Threads} {calls later : AtomicAllocator} {id other idx size : Nat}

theorem Refines.new {baseAddr nrPages : Nat} (nonnull : baseAddr ≠ 0) :
    Refines (Threads.new baseAddr nrPages) (Calls.new (Allocator.new baseAddr nrPages)) where
  base := rfl
  cursor := rfl
  nrPages := rfl
  length := List.length_replicate
  nonnull := nonnull
  tiled := .new _ _
  unshared := nofun
  follows := fun _ => .idle rfl rfl
  once := nofun
  slots := fun _ _ => rfl
  contexts := fun _ _ => rfl
  medium := fun _ => rfl
  locked := by simp [Threads.new, Stage.inside]

/-- A call that has its answer and not returned it is opening a page. -/
theorem Follows.opening {ptr : Nat} (follows : Follows threads calls id)
    (answered : calls.status id = .answered size (some (ptr, idx))) :
    (threads.stage id).inside = some size ∧ ∃ there, Opening threads calls id size idx there := by
  cases follows with
  | idle _ status => cases status.symm.trans answered
  | entered _ status => cases status.symm.trans answered
  | look _ status => cases status.symm.trans answered
  | refill _ status => cases status.symm.trans answered
  | installing stage opening =>
      cases opening.answered.symm.trans answered
      exact ⟨by rw [stage, Stage.inside], _, opening⟩
  | opened stage opening =>
      cases opening.answered.symm.trans answered
      refine ⟨?_, _, opening⟩
      rcases stage with stage | stage <;> rw [stage, Stage.inside]

theorem Follows.idle_status (follows : Follows threads calls id) (idle : threads.stage id = .idle) :
    calls.status id = .idle := by
  cases follows with
  | idle _ status => exact status
  | entered stage => cases stage.symm.trans idle
  | look stage => cases stage.symm.trans idle
  | refill stage => cases stage.symm.trans idle
  | installing stage => cases stage.symm.trans idle
  | opened stage => rcases stage with stage | stage <;> cases stage.symm.trans idle

/-- Whose a page is that a call uses. -/
inductive Owns (threads : Threads) (calls : AtomicAllocator) (id idx : Nat) (page : FlexPage) : Prop where
  | small (kind : page.kind = .small) (cached : (calls.object.contexts id).localBufferPage = some idx)
  | medium (kind : page.kind = .medium) (locked : threads.bufferLock = some id)
  | huge {count : Nat} (kind : page.kind = .huge count) {size ptr : Nat}
      (answered : calls.status id = .answered size (some (ptr, idx)))

theorem Refines.owns (refines : Refines threads calls) (uses : Uses threads calls id idx) :
    ∃ page, calls.object.table.slot idx = some page ∧ Owns threads calls id idx page := by
  cases uses with
  | @buffer size inside called selected =>
      rw [Context.buffer_eq] at selected
      cases sized : sizeClass size with
      | small =>
          rw [sized] at selected
          obtain ⟨page, found, kind⟩ := refines.tiled.fits id idx selected
          exact ⟨page, found, .small kind selected⟩
      | medium =>
          rw [sized] at selected
          obtain ⟨page, found, kind⟩ := refines.tiled.placed.medium selected
          exact ⟨page, found, .medium kind ((refines.locked id).mpr ⟨size, inside, sized⟩)⟩
      | huge count =>
          rw [sized] at selected
          cases selected
  | @opened size ptr answered =>
      obtain ⟨inside, there, opening⟩ := (refines.follows id).opening answered
      refine ⟨_, opening.opened, ?_⟩
      cases sized : sizeClass size with
      | small => exact .small rfl (opening.small sized)
      | medium => exact .medium rfl ((refines.locked id).mpr ⟨size, inside, sized⟩)
      | huge count => exact .huge rfl answered

/-- No two calls use the same page. -/
theorem Refines.apart (refines : Refines threads calls) (different : id ≠ other) (uses : Uses threads calls id idx) :
    ¬ Uses threads calls other idx := by
  intro otherUses
  obtain ⟨page, found, owns⟩ := refines.owns uses
  obtain ⟨_, same, otherOwns⟩ := refines.owns otherUses
  cases found.symm.trans same
  cases owns with
  | small kind cached =>
      cases otherOwns with
      | small _ otherCached => exact refines.unshared id other idx different cached otherCached
      | medium otherKind => cases kind.symm.trans otherKind
      | huge otherKind => cases kind.symm.trans otherKind
  | medium kind locked =>
      cases otherOwns with
      | small otherKind => cases kind.symm.trans otherKind
      | medium _ otherLocked =>
          cases locked.symm.trans otherLocked
          exact different rfl
      | huge otherKind => cases kind.symm.trans otherKind
  | huge kind answered =>
      cases otherOwns with
      | small otherKind => cases kind.symm.trans otherKind
      | medium otherKind => cases kind.symm.trans otherKind
      | huge _ otherAnswered => exact different (refines.once _ _ _ _ _ _ _ answered otherAnswered)

theorem Refines.uses_lt (refines : Refines threads calls) (uses : Uses threads calls id idx) :
    idx < calls.object.table.currentBasePage := by
  obtain ⟨page, found, _⟩ := refines.owns uses
  exact refines.tiled.placed.indexed.below found

/-- Only the thread `id` goes on. What the calls of the others use stays. -/
structure Moves (threads next : Threads) (calls later : AtomicAllocator) (id : Nat) : Prop where
  stage : ∀ other, other ≠ id → next.stage other = threads.stage other
  status : ∀ other, other ≠ id → later.status other = calls.status other
  context : ∀ other, other ≠ id → next.shared.contexts other = threads.shared.contexts other ∧
    later.object.contexts other = calls.object.contexts other
  lock : ∀ other, other ≠ id → (next.bufferLock = some other ↔ threads.bufferLock = some other)
  medium : ∀ other, other ≠ id → threads.bufferLock = some other →
    next.shared.table.mediumBufferPage = threads.shared.table.mediumBufferPage ∧
      later.object.table.mediumBufferPage = calls.object.table.mediumBufferPage
  slots : ∀ other idx, other ≠ id → Uses threads calls other idx →
    next.shared.table.slot idx = threads.shared.table.slot idx ∧
      later.object.table.slot idx = calls.object.table.slot idx
  base : later.object.table.baseAddr = calls.object.table.baseAddr

theorem Moves.opening (moves : Moves threads next calls later id) (refines : Refines threads calls)
    (different : other ≠ id) {there : Option FlexPage} (inside : (threads.stage other).inside = some size)
    (opening : Opening threads calls other size idx there) : Opening next later other size idx there := by
  obtain ⟨same, sameAtomic⟩ := moves.slots other idx different (.opened opening.answered)
  refine ⟨?_, same.trans opening.found, ?_, ?_, ?_⟩
  · rw [moves.status other different, moves.base]
    exact opening.answered
  · rw [sameAtomic, moves.base]
    exact opening.opened
  · rw [(moves.context other different).2]
    exact opening.small
  · intro sized
    rw [(moves.medium other different ((refines.locked other).mpr ⟨size, inside, sized⟩)).2]
    exact opening.medium sized

theorem Moves.follows (moves : Moves threads next calls later id) (refines : Refines threads calls)
    (different : other ≠ id) : Follows next later other := by
  have stages := moves.stage other different
  have statuses := moves.status other different
  have buffers (size : Nat) (inside : (threads.stage other).inside = some size) :
      (later.object.contexts other).buffer later.object.table size =
        (calls.object.contexts other).buffer calls.object.table size := by
    rw [Context.buffer_eq, Context.buffer_eq, (moves.context other different).2]
    cases sized : sizeClass size with
    | small => rfl
    | medium => exact (moves.medium other different ((refines.locked other).mpr ⟨size, inside, sized⟩)).2
    | huge => rfl
  cases refines.follows other with
  | idle stage status => exact .idle (stages.trans stage) (statuses.trans status)
  | entered stage status multiple => exact .entered (stages.trans stage) (statuses.trans status) multiple
  | look stage status multiple buffer =>
      refine .look (stages.trans stage) (statuses.trans status) multiple ?_
      rw [buffers _ (by rw [stage, Stage.inside]), buffer]
  | @refill size tested stage status multiple noRoom =>
      have inside : (threads.stage other).inside = some size := by rw [stage, Stage.inside]
      refine .refill (stages.trans stage) (statuses.trans status) multiple ?_
      intro idx page selected found
      rw [buffers _ inside] at selected
      rw [(moves.slots other idx different (.buffer inside status selected)).2] at found
      exact noRoom selected found
  | installing stage opening =>
      exact .installing (stages.trans stage) (moves.opening refines different (by rw [stage, Stage.inside]) opening)
  | opened stage opening =>
      refine .opened (by rwa [stages]) ?_
      rw [moves.base]
      refine moves.opening refines different ?_ opening
      rcases stage with stage | stage <;> rw [stage, Stage.inside]

/-- The buffer is what the atomic calls have, where no call is on its way to set it. -/
theorem Refines.buffer_same (refines : Refines threads calls)
    (unlocked : ∀ other, other ≠ id → threads.bufferLock ≠ some other)
    (quiet : ∀ size idx tested, threads.stage id = .install size idx tested → sizeClass size ≠ .medium) :
    threads.shared.table.mediumBufferPage = calls.object.table.mediumBufferPage := by
  refine refines.medium ?_
  intro other size idx tested stage sized
  by_cases mine : other = id
  · subst mine
    exact quiet size idx tested stage sized
  · exact unlocked other mine ((refines.locked other).mpr ⟨size, by rw [stage, Stage.inside], sized⟩)

theorem Refines.medium_same (refines : Refines threads calls)
    (unlocked : ∀ other, other ≠ id → threads.bufferLock ≠ some other)
    (quiet : ∀ size idx tested, threads.stage id ≠ .install size idx tested) :
    threads.shared.table.mediumBufferPage = calls.object.table.mediumBufferPage :=
  refines.buffer_same unlocked fun size idx tested stage => absurd stage (quiet size idx tested)

theorem Refines.context_same (refines : Refines threads calls)
    (quiet : ∀ size idx tested, threads.stage id ≠ .install size idx tested) :
    threads.shared.contexts id = calls.object.contexts id :=
  refines.contexts id fun size idx tested stage => absurd stage (quiet size idx tested)

/-- A slot is what the atomic calls have, where neither the call of the thread nor another opens it. -/
theorem Refines.slot_same (refines : Refines threads calls)
    (own : ∀ size ptr, calls.status id ≠ .answered size (some (ptr, idx)))
    (others : ∀ other size ptr, other ≠ id → calls.status other ≠ .answered size (some (ptr, idx))) :
    threads.shared.table.slot idx = calls.object.table.slot idx := by
  refine refines.slots idx fun other size ptr answered => ?_
  by_cases mine : other = id
  · exact own size ptr (mine ▸ answered)
  · exact others other size ptr mine answered

/-- A call that goes on within its size holds the buffer as it did. -/
theorem Refines.still_locked (refines : Refines threads calls) (inside : (threads.stage id).inside = some size)
    {stage : Stage} (same : stage.inside = some size) : threads.bufferLock = some id ↔
      ∃ size, (Function.update threads.stage id stage id).inside = some size ∧ sizeClass size = .medium := by
  rw [Function.update_self, same, ← inside]
  exact refines.locked id

/-- What is left to show of a step of one thread. -/
theorem Refines.moved (refines : Refines threads calls) (moves : Moves threads next calls later id)
    (base : next.shared.table.baseAddr = threads.shared.table.baseAddr)
    (nrPages : next.shared.table.nrPages = threads.shared.table.nrPages ∧
      later.object.table.nrPages = calls.object.table.nrPages)
    (length : next.shared.table.pageTable.length = threads.shared.table.pageTable.length)
    (cursor : next.shared.table.currentBasePage = later.object.table.currentBasePage)
    (tiled : later.object.Tiled) (unshared : later.object.Unshared) (own : Follows next later id)
    (once : ∀ size ptr idx, later.status id = .answered size (some (ptr, idx)) →
      ∀ other otherSize otherPtr, other ≠ id → calls.status other ≠ .answered otherSize (some (otherPtr, idx)))
    (slots : ∀ idx, (∀ id size ptr, later.status id ≠ .answered size (some (ptr, idx))) →
      next.shared.table.slot idx = later.object.table.slot idx)
    (context : (∀ size idx tested, next.stage id = .install size idx tested → sizeClass size ≠ .small) →
      next.shared.contexts id = later.object.contexts id)
    (medium : (∀ other, other ≠ id → threads.bufferLock ≠ some other) →
      (∀ size idx tested, next.stage id = .install size idx tested → sizeClass size ≠ .medium) →
      next.shared.table.mediumBufferPage = later.object.table.mediumBufferPage)
    (locked : next.bufferLock = some id ↔ ∃ size, (next.stage id).inside = some size ∧ sizeClass size = .medium) :
    Refines next later where
  base := base.trans (refines.base.trans moves.base.symm)
  cursor := cursor
  nrPages := by rw [nrPages.1, nrPages.2, refines.nrPages]
  length := by rw [length, nrPages.2, refines.length]
  nonnull := moves.base ▸ refines.nonnull
  tiled := tiled
  unshared := unshared
  follows := by
    intro other
    by_cases mine : other = id
    · exact mine ▸ own
    · exact moves.follows refines mine
  once := by
    intro left right leftSize rightSize leftPtr rightPtr idx leftAnswered rightAnswered
    by_cases leftMine : left = id
    · by_cases rightMine : right = id
      · exact leftMine.trans rightMine.symm
      · rw [moves.status right rightMine] at rightAnswered
        exact absurd rightAnswered (once _ _ _ (leftMine ▸ leftAnswered) right _ _ rightMine)
    · by_cases rightMine : right = id
      · rw [moves.status left leftMine] at leftAnswered
        exact absurd leftAnswered (once _ _ _ (rightMine ▸ rightAnswered) left _ _ leftMine)
      · rw [moves.status left leftMine] at leftAnswered
        rw [moves.status right rightMine] at rightAnswered
        exact refines.once _ _ _ _ _ _ _ leftAnswered rightAnswered
  slots := slots
  contexts := by
    intro other quiet
    by_cases mine : other = id
    · subst mine
      exact context quiet
    · rw [(moves.context other mine).1, (moves.context other mine).2]
      rw [moves.stage other mine] at quiet
      exact refines.contexts other quiet
  medium := by
    intro quiet
    by_cases taken : ∃ other, other ≠ id ∧ threads.bufferLock = some other
    · obtain ⟨other, mine, locks⟩ := taken
      obtain ⟨same, sameAtomic⟩ := moves.medium other mine locks
      rw [same, sameAtomic]
      refine refines.medium ?_
      intro third size idx tested stage sized
      have holds := (refines.locked third).mpr ⟨size, by rw [stage, Stage.inside], sized⟩
      cases locks.symm.trans holds
      exact quiet other size idx tested ((moves.stage other mine).trans stage) sized
    · exact medium (fun other mine locks => taken ⟨other, mine, locks⟩) (quiet id)
  locked := by
    intro other
    by_cases mine : other = id
    · subst mine
      exact locked
    · rw [moves.lock other mine, moves.stage other mine]
      exact refines.locked other

/-- A step that leaves the table and the contexts alone. -/
theorem Refines.turned (refines : Refines threads calls) (shared : next.shared = threads.shared)
    (object : later.object = calls.object) (stages : ∀ other, other ≠ id → next.stage other = threads.stage other)
    (statuses : ∀ other, other ≠ id → later.status other = calls.status other)
    (lock : ∀ other, other ≠ id → (next.bufferLock = some other ↔ threads.bufferLock = some other))
    (quiet : ∀ size idx tested, threads.stage id ≠ .install size idx tested)
    (before : ∀ size result, calls.status id ≠ .answered size result)
    (behind : ∀ size result, later.status id ≠ .answered size result) (own : Follows next later id)
    (locked : next.bufferLock = some id ↔ ∃ size, (next.stage id).inside = some size ∧ sizeClass size = .medium) :
    Refines next later := by
  refine refines.moved ⟨stages, statuses, ?_, lock, ?_, ?_, ?_⟩ ?_ ?_ ?_ ?_ ?_ ?_ own ?_ ?_ ?_ ?_ locked
  · intro other _
    rw [shared, object]
    exact ⟨rfl, rfl⟩
  · intro other _ _
    rw [shared, object]
    exact ⟨rfl, rfl⟩
  · intro other idx _ _
    rw [shared, object]
    exact ⟨rfl, rfl⟩
  · rw [object]
  · rw [shared]
  · rw [shared, object]
    exact ⟨rfl, rfl⟩
  · rw [shared]
  · rw [shared, object, refines.cursor]
  · rw [object]
    exact refines.tiled
  · rw [object]
    exact refines.unshared
  · intro size ptr idx answered
    exact absurd answered (behind size _)
  · intro idx closed
    rw [shared, object]
    refine refines.slot_same (fun size _ => before size _) fun other size ptr mine answered => ?_
    exact closed other size ptr ((statuses other mine).trans answered)
  · intro _
    rw [shared, object]
    exact refines.context_same quiet
  · intro unlocked _
    rw [shared, object]
    exact refines.medium_same unlocked quiet

theorem Threads.leave_lock {result : Option (Nat × Nat)} (different : other ≠ id) :
    (threads.leave id size result).bufferLock = some other ↔ threads.bufferLock = some other := by
  simp only [Threads.leave]
  split
  · next mine =>
      rw [mine]
      exact iff_of_false nofun fun same => different (Option.some.inj same).symm
  · exact Iff.rfl

theorem Threads.leave_locked {result : Option (Nat × Nat)} :
    (threads.leave id size result).bufferLock = some id ↔
      ∃ size', ((threads.leave id size result).stage id).inside = some size' ∧ sizeClass size' = .medium := by
  simp only [Threads.leave, Function.update_self, Stage.inside]
  refine iff_of_false ?_ (by simp)
  split
  · exact nofun
  · next free => exact free

/-- The page that a call was opening is bumped for it, and the tables are the same there. -/
theorem Refines.serves (refines : Refines threads calls)
    (stage : threads.stage id = .look size idx ∨ threads.stage id = .serve size idx)
    (opening : Opening threads calls id size idx
      (some ⟨sizeClass size, calls.object.table.baseAddr + idx * basePageSize, 0⟩)) :
    ∃ next, threads.serveIn id size idx = .ok next ∧ Refines next (calls.set id .idle) ∧
      next.history = threads.history ++
        [.returned id size (some (calls.object.table.baseAddr + idx * basePageSize, idx))] := by
  have free := Context.hasRoom_le (Context.hasRoom_opened size (calls.object.table.baseAddr + idx * basePageSize))
  have served := (@allocIn_eq_ok threads.shared.table _ idx size _).mpr ⟨_, opening.found, free, rfl, rfl⟩
  rw [Nat.add_zero] at served
  have quiet (size' idx' : Nat) (tested : Bool) : threads.stage id ≠ .install size' idx' tested := by
    rcases stage with stage | stage <;> simp [stage]
  refine ⟨(threads.withTable (threads.shared.table.bumped idx
    ⟨sizeClass size, calls.object.table.baseAddr + idx * basePageSize, 0⟩ size)).leave id size
      (some (_, idx)), ?_, ?_, rfl⟩
  · simp only [Threads.serveIn, freeIn_eq_ok.mpr ⟨_, opening.found, rfl⟩, served, bind, Except.bind, ge_iff_le,
      free, decide_true, assert, if_true, ite_self]
  · have bumped := slot_bumped opening.found size
    refine refines.moved ⟨?_, ?_, fun _ _ => ⟨rfl, rfl⟩, fun _ => Threads.leave_lock,
      fun _ _ _ => ⟨rfl, rfl⟩, ?_, rfl⟩ rfl ⟨rfl, rfl⟩ ?_ refines.cursor refines.tiled refines.unshared
      ?_ ?_ ?_ ?_ ?_ Threads.leave_locked
    · exact fun other different => Function.update_of_ne different _ _
    · exact fun other different => Calls.set_status_of_ne _ different _
    · intro other idx' different uses
      refine ⟨(bumped idx').trans (if_neg ?_), rfl⟩
      rintro rfl
      exact refines.apart different uses (.opened opening.answered)
    · simp [Threads.leave, Threads.withTable, PageTable.bumped, setPage]
    · exact .idle (Function.update_self ..) (Calls.set_status_self _ _ _)
    · intro size' ptr idx' answered
      rw [Calls.set_status_self] at answered
      cases answered
    · intro idx' closed
      refine (bumped idx').trans ?_
      by_cases same : idx' = idx
      · rw [if_pos same, same, Calls.set_object, opening.opened, Nat.zero_add]
      · rw [if_neg same]
        have unopened (size' ptr : Nat) : calls.status id ≠ .answered size' (some (ptr, idx')) := by
          intro answered
          cases opening.answered.symm.trans answered
          exact same rfl
        refine refines.slot_same unopened fun other size' ptr mine answered => ?_
        exact closed other size' ptr ((Calls.set_status_of_ne _ mine _).trans answered)
    · exact fun _ => refines.context_same quiet
    · exact fun unlocked _ => refines.medium_same unlocked quiet

/-- The atomic calls can go along, and the threads see the same of them. -/
def Simulated (threads next : Threads) (calls : AtomicAllocator) : Prop :=
  ∃ later, Refines next later ∧ ∀ start, History Allocator.Effect start threads.history calls →
    History Allocator.Effect start next.history later

/-- A page that a call bumps and has not opened is as it is for the atomic calls. -/
theorem Refines.used_slot (refines : Refines threads calls) (uses : Uses threads calls id idx)
    (before : ∀ size result, calls.status id ≠ .answered size result) :
    threads.shared.table.slot idx = calls.object.table.slot idx :=
  refines.slot_same (fun size _ => before size _) fun _ _ _ mine answered =>
    refines.apart mine (.opened answered) uses

theorem Context.after_buffer {context : Context} {table : PageTable} {ptr : Nat}
    (selected : context.buffer table size = some idx) : context.after size (some (ptr, idx)) = context := by
  by_cases small : size < FlexPageKind.small.maxObjectSize
  · rw [Context.buffer_eq, sizeClass_eq_small.mpr small] at selected
    rw [Context.after_small context small, ← selected]
  · exact Context.after_large context small _

theorem Allocator.after_contexts_of_ne {allocator : Allocator} {result : Option (Nat × Nat)} {table : PageTable}
    (different : other ≠ id) : (allocator.after id size result table).contexts other = allocator.contexts other :=
  Function.update_of_ne different _ _

/-- A call bumps the page that it has looked at, if there is room for it. -/
theorem Refines.bumps {page : FlexPage} (refines : Refines threads calls) (stage : threads.stage id = .look size idx)
    (status : calls.status id = .called size) (multiple : size % 8 = 0)
    (buffer : (calls.object.contexts id).buffer calls.object.table size = some idx)
    (found : calls.object.table.slot idx = some page) (room : Context.hasRoom size page) :
    ∃ next, threads.lookIn id size idx = .ok next ∧ Simulated threads next calls := by
  have uses : Uses threads calls id idx := .buffer (by rw [stage, Stage.inside]) status buffer
  have before (size' : Nat) (result : Option (Nat × Nat)) : calls.status id ≠ .answered size' result := by
    simp [status]
  have quiet (size' idx' : Nat) (tested : Bool) : threads.stage id ≠ .install size' idx' tested := by simp [stage]
  have there : threads.shared.table.slot idx = some page := (refines.used_slot uses before).trans found
  have free := Context.hasRoom_le room
  have allocated : calls.object.Allocated id size (some (page.start + page.usedBytes, idx))
      (calls.object.table.bumped idx page size) := .bump buffer found room free
  have bumped := slot_bumped there size
  have bumpedAtomic := slot_bumped found size
  refine ⟨(threads.withTable (threads.shared.table.bumped idx page size)).leave id size
      (some (page.start + page.usedBytes, idx)), ?_,
    Calls.set ⟨calls.object.after id size (some (page.start + page.usedBytes, idx))
      (calls.object.table.bumped idx page size), calls.status⟩ id .idle, ?_,
    fun start history => history.serve status (allocated.effect refines.tiled multiple)⟩
  · simp only [Threads.lookIn, Threads.serveIn, freeIn_eq_ok.mpr ⟨_, there, rfl⟩, roomFor_iff.mpr room,
      allocIn_eq_ok.mpr ⟨_, there, free, rfl, rfl⟩, bind, Except.bind, ge_iff_le, free, decide_true, assert, if_true,
      ite_self]
  · refine refines.moved ⟨?_, ?_, ?_, fun _ => Threads.leave_lock, fun _ _ _ => ⟨rfl, rfl⟩, ?_, rfl⟩
      rfl ⟨rfl, rfl⟩ ?_ refines.cursor (allocated.callStep.tiled refines.tiled multiple)
      (allocated.unshared refines.tiled refines.unshared) ?_ ?_ ?_ ?_ ?_ Threads.leave_locked
    · exact fun other different => Function.update_of_ne different _ _
    · exact fun other different => Calls.set_status_of_ne _ different _
    · exact fun other different => ⟨rfl, Allocator.after_contexts_of_ne different⟩
    · intro other idx' different otherUses
      have apart : idx' ≠ idx := by
        rintro rfl
        exact refines.apart different otherUses uses
      exact ⟨(bumped idx').trans (if_neg apart), (bumpedAtomic idx').trans (if_neg apart)⟩
    · simp [Threads.leave, Threads.withTable, PageTable.bumped, setPage]
    · exact .idle (Function.update_self ..) (Calls.set_status_self _ _ _)
    · intro size' ptr idx' answered
      rw [Calls.set_status_self] at answered
      cases answered
    · intro idx' closed
      refine (bumped idx').trans (Eq.trans ?_ (bumpedAtomic idx').symm)
      by_cases same : idx' = idx
      · rw [if_pos same, if_pos same]
      · rw [if_neg same, if_neg same]
        refine refines.slot_same (fun size' _ => before size' _) fun other size' ptr mine answered => ?_
        exact closed other size' ptr ((Calls.set_status_of_ne _ mine _).trans answered)
    · intro _
      refine (refines.context_same quiet).trans (Eq.symm ?_)
      exact (Function.update_self ..).trans (Context.after_buffer buffer)
    · exact fun unlocked _ => refines.medium_same unlocked quiet

/-- Otherwise it goes for a new page. -/
theorem Refines.finds_full {page : FlexPage} (refines : Refines threads calls)
    (stage : threads.stage id = .look size idx) (status : calls.status id = .called size) (multiple : size % 8 = 0)
    (buffer : (calls.object.contexts id).buffer calls.object.table size = some idx)
    (found : calls.object.table.slot idx = some page) (noRoom : ¬ Context.hasRoom size page) :
    ∃ next, threads.lookIn id size idx = .ok next ∧ Simulated threads next calls := by
  have uses : Uses threads calls id idx := .buffer (by rw [stage, Stage.inside]) status buffer
  have before (size' : Nat) (result : Option (Nat × Nat)) : calls.status id ≠ .answered size' result := by
    simp [status]
  have quiet (size' idx' : Nat) (tested : Bool) : threads.stage id ≠ .install size' idx' tested := by simp [stage]
  have there : threads.shared.table.slot idx = some page := (refines.used_slot uses before).trans found
  have full : Threads.roomFor size page.free = false :=
    Bool.eq_false_iff.mpr fun fits => noRoom (roomFor_iff.mp fits)
  refine ⟨threads.goTo id (.refill size true), ?_, calls, ?_, fun start history => history⟩
  · simp only [Threads.lookIn, freeIn_eq_ok.mpr ⟨_, there, rfl⟩, full, bind, Except.bind, Bool.false_eq_true,
      if_false]
  · refine refines.turned rfl rfl (fun other different => Function.update_of_ne different _ _) (fun _ _ => rfl)
      (fun _ _ => Iff.rfl) quiet before before ?_ ?_
    · refine .refill (Function.update_self ..) status multiple ?_
      intro other otherPage selected otherFound
      cases buffer.symm.trans selected
      cases found.symm.trans otherFound
      exact noRoom
    · exact refines.still_locked (by rw [stage, Stage.inside]) (by rw [Stage.inside])

theorem Refines.looks (refines : Refines threads calls) (stage : threads.stage id = .look size idx)
    (status : calls.status id = .called size) (multiple : size % 8 = 0)
    (buffer : (calls.object.contexts id).buffer calls.object.table size = some idx) :
    ∃ next, threads.lookIn id size idx = .ok next ∧ Simulated threads next calls := by
  have uses : Uses threads calls id idx := .buffer (by rw [stage, Stage.inside]) status buffer
  obtain ⟨page, found, _⟩ := refines.owns uses
  by_cases room : Context.hasRoom size page
  · exact refines.bumps stage status multiple buffer found room
  · exact refines.finds_full stage status multiple buffer found room

/-- Where the cursor moves, the page behind it is opened for the atomic call. -/
theorem Refines.claims_page {tested : Bool} (refines : Refines threads calls)
    (stage : threads.stage id = .refill size tested) (status : calls.status id = .called size)
    (multiple : size % 8 = 0)
    (noRoom : ∀ {idx page}, (calls.object.contexts id).buffer calls.object.table size = some idx →
      calls.object.table.slot idx = some page → ¬ Context.hasRoom size page)
    (available : calls.object.table.currentBasePage + (sizeClass size).nrPages ≤ calls.object.table.nrPages) :
    Simulated threads (threads.claim id size tested) calls := by
  have before (size' : Nat) (result : Option (Nat × Nat)) : calls.status id ≠ .answered size' result := by
    simp [status]
  have quiet (size' idx' : Nat) (tested : Bool) : threads.stage id ≠ .install size' idx' tested := by simp [stage]
  have start : calls.object.table.baseAddr + calls.object.table.currentBasePage * basePageSize ≠ 0 := by
    have nonnull := refines.nonnull
    omega
  have allocated : calls.object.Allocated id size (some (calls.object.table.baseAddr +
      calls.object.table.currentBasePage * basePageSize, calls.object.table.currentBasePage))
      (calls.object.table.opened (sizeClass size) size) := .fresh noRoom available start (sizeClass_free size)
  have bound : calls.object.table.currentBasePage < calls.object.table.pageTable.length := by
    have positive := sizeClass_nrPages_pos size
    rw [refines.tiled.placed.length]
    omega
  have opened := slot_opened bound (sizeClass size) size
  have unused : calls.object.table.slot calls.object.table.currentBasePage = none := by
    cases found : calls.object.table.slot calls.object.table.currentBasePage with
    | none => rfl
    | some page => exact absurd (refines.tiled.placed.indexed.below found) (Nat.lt_irrefl _)
  have claimed : threads.claim id size tested =
      (threads.withTable { threads.shared.table with
        currentBasePage := calls.object.table.currentBasePage + (sizeClass size).nrPages }).goTo id
        (.install size calls.object.table.currentBasePage tested) := by
    simp only [Threads.claim, claimPages, refines.cursor, refines.nrPages, gt_iff_lt,
      if_neg (Nat.not_lt.mpr available)]
  have mine : sizeClass size = .medium → threads.bufferLock = some id := fun sized =>
    (refines.locked id).mpr ⟨size, by rw [stage, Stage.inside], sized⟩
  rw [claimed]
  refine ⟨_, ?_, fun start history => history.answer status (allocated.effect refines.tiled multiple)⟩
  refine @Refines.moved threads _ calls _ id refines ⟨?_, ?_, ?_, fun _ _ => Iff.rfl, ?_, ?_, rfl⟩ rfl ⟨rfl, rfl⟩
    rfl rfl (allocated.callStep.tiled refines.tiled multiple) (allocated.unshared refines.tiled refines.unshared)
    ?_ ?_ ?_ ?_ ?_ ?_
  · exact fun other different => Function.update_of_ne different _ _
  · exact fun other different => Calls.set_status_of_ne _ different _
  · exact fun other different => ⟨rfl, Allocator.after_contexts_of_ne different⟩
  · intro other different locks
    have notMedium : sizeClass size ≠ .medium := by
      intro sized
      cases locks.symm.trans (mine sized)
      exact different rfl
    exact ⟨rfl, if_neg notMedium⟩
  · intro other idx' _ uses
    have below := refines.uses_lt uses
    exact ⟨rfl, (opened idx').trans (if_neg (by omega))⟩
  · refine .installing (Function.update_self ..)
      ⟨Calls.set_status_self _ _ _, ?_, (opened _).trans (if_pos rfl), ?_, ?_⟩
    · refine (refines.slots _ fun other size' ptr answered => ?_).trans unused
      exact absurd (refines.uses_lt (.opened answered)) (Nat.lt_irrefl _)
    · intro sized
      have small := sizeClass_eq_small.mp sized
      refine (congrArg Context.localBufferPage (Function.update_self ..)).trans ?_
      rw [Context.after_small _ small]
    · exact fun sized => if_pos sized
  · intro size' ptr idx' answered other otherSize otherPtr different otherAnswered
    rw [Calls.set_status_self] at answered
    cases answered
    exact absurd (refines.uses_lt (.opened otherAnswered)) (Nat.lt_irrefl _)
  · intro idx' closed
    have apart : idx' ≠ calls.object.table.currentBasePage := by
      rintro rfl
      exact closed id size _ (Calls.set_status_self _ _ _)
    refine Eq.trans ?_ ((opened idx').trans (if_neg apart)).symm
    refine refines.slot_same (fun size' _ => before size' _) fun other size' ptr mine answered => ?_
    exact closed other size' ptr ((Calls.set_status_of_ne _ mine _).trans answered)
  · intro still
    have large := fun small => still size _ tested (Function.update_self ..) (sizeClass_eq_small.mpr small)
    refine (refines.context_same quiet).trans (Eq.symm ?_)
    exact (Function.update_self ..).trans (Context.after_large _ large _)
  · intro unlocked still
    have notMedium := still size _ tested (Function.update_self ..)
    exact (refines.medium_same unlocked quiet).trans (if_neg notMedium).symm
  · exact refines.still_locked (by rw [stage, Stage.inside]) (by rw [Stage.inside])

/-- Where it cannot move, the call returns, and so does the atomic one. -/
theorem Refines.claims_none {tested : Bool} (refines : Refines threads calls)
    (stage : threads.stage id = .refill size tested) (status : calls.status id = .called size)
    (multiple : size % 8 = 0)
    (noRoom : ∀ {idx page}, (calls.object.contexts id).buffer calls.object.table size = some idx →
      calls.object.table.slot idx = some page → ¬ Context.hasRoom size page)
    (exhausted : calls.object.table.nrPages < calls.object.table.currentBasePage + (sizeClass size).nrPages) :
    Simulated threads (threads.claim id size tested) calls := by
  have before (size' : Nat) (result : Option (Nat × Nat)) : calls.status id ≠ .answered size' result := by
    simp [status]
  have quiet (size' idx' : Nat) (tested : Bool) : threads.stage id ≠ .install size' idx' tested := by simp [stage]
  have allocated : calls.object.Allocated id size none calls.object.table := .full noRoom exhausted
  have claimed : threads.claim id size tested = threads.leave id size none := by
    simp only [Threads.claim, claimPages, refines.cursor, refines.nrPages, gt_iff_lt, if_pos exhausted]
  have same : calls.object.after id size none calls.object.table = calls.object :=
    allocated.callStep.none_unchanged
  rw [claimed]
  refine ⟨_, ?_, fun start history => history.serve status (allocated.effect refines.tiled multiple)⟩
  refine refines.turned rfl same (fun other different => Function.update_of_ne different _ _)
    (fun other different => Calls.set_status_of_ne _ different _) (fun _ => Threads.leave_lock) quiet before ?_ ?_
    Threads.leave_locked
  · intro size' result answered
    rw [Calls.set_status_self] at answered
    cases answered
  · exact .idle (Function.update_self ..) (Calls.set_status_self _ _ _)

theorem Refines.claims {tested : Bool} (refines : Refines threads calls)
    (stage : threads.stage id = .refill size tested) (status : calls.status id = .called size)
    (multiple : size % 8 = 0)
    (noRoom : ∀ {idx page}, (calls.object.contexts id).buffer calls.object.table size = some idx →
      calls.object.table.slot idx = some page → ¬ Context.hasRoom size page) :
    Simulated threads (threads.claim id size tested) calls := by
  by_cases available : calls.object.table.currentBasePage + (sizeClass size).nrPages ≤ calls.object.table.nrPages
  · exact refines.claims_page stage status multiple noRoom available
  · exact refines.claims_none stage status multiple noRoom (Nat.not_le.mp available)

section Keep

variable {kind : FlexPageKind}

theorem Threads.keep_stage : (threads.keep id kind idx).stage = threads.stage := by cases kind <;> rfl

theorem Threads.keep_lock : (threads.keep id kind idx).bufferLock = threads.bufferLock := by cases kind <;> rfl

theorem Threads.keep_history : (threads.keep id kind idx).history = threads.history := by cases kind <;> rfl

theorem Threads.keep_base : (threads.keep id kind idx).shared.table.baseAddr = threads.shared.table.baseAddr := by
  cases kind <;> rfl

theorem Threads.keep_cursor :
    (threads.keep id kind idx).shared.table.currentBasePage = threads.shared.table.currentBasePage := by
  cases kind <;> rfl

theorem Threads.keep_nrPages : (threads.keep id kind idx).shared.table.nrPages = threads.shared.table.nrPages := by
  cases kind <;> rfl

theorem Threads.keep_pageTable :
    (threads.keep id kind idx).shared.table.pageTable = threads.shared.table.pageTable := by cases kind <;> rfl

theorem Threads.keep_slot (other : Nat) :
    (threads.keep id kind idx).shared.table.slot other = threads.shared.table.slot other := by cases kind <;> rfl

theorem Threads.keep_medium (different : kind ≠ .medium) :
    (threads.keep id kind idx).shared.table.mediumBufferPage = threads.shared.table.mediumBufferPage := by
  cases kind with
  | medium => exact absurd rfl different
  | small => rfl
  | huge => rfl

theorem Threads.keep_contexts (different : kind ≠ .small) :
    (threads.keep id kind idx).shared.contexts = threads.shared.contexts := by
  cases kind with
  | small => exact absurd rfl different
  | medium => rfl
  | huge => rfl

theorem Threads.keep_context_of_ne (different : other ≠ id) :
    (threads.keep id kind idx).shared.contexts other = threads.shared.contexts other := by
  cases kind with
  | small => exact Function.update_of_ne different _ _
  | medium => rfl
  | huge => rfl

end Keep

theorem Threads.install_eq {tested : Bool} (bound : idx < threads.shared.table.pageTable.length)
    (start : threads.shared.table.baseAddr + idx * basePageSize ≠ 0) :
    threads.install id size idx tested = .ok (((threads.withTable (threads.shared.table.setPage idx
      ⟨sizeClass size, threads.shared.table.baseAddr + idx * basePageSize, 0⟩)).keep id (sizeClass size) idx).goTo
        id (if tested then .serve size idx else .look size idx)) := by
  have got : threads.shared.table.getPage idx = .ok threads.shared.table.pageTable[idx] := by
    simp [getPage, bound]
  have made : FlexPage.new (sizeClass size) (threads.shared.table.baseAddr + idx * basePageSize) = .ok _ :=
    FlexPage.new_eq_ok.mpr ⟨start, rfl⟩
  have page : threads.shared.table.installPage (sizeClass size) idx = .ok (threads.shared.table.setPage idx
      ⟨sizeClass size, threads.shared.table.baseAddr + idx * basePageSize, 0⟩) := by
    unfold installPage
    rw [got, made]
    rfl
  unfold Threads.install
  rw [page]
  rfl

/-- The slot is filled as the atomic call has left it, but for the bump. -/
theorem Refines.installs {tested : Bool} (refines : Refines threads calls)
    (stage : threads.stage id = .install size idx tested) (opening : Opening threads calls id size idx none) :
    ∃ next, threads.install id size idx tested = .ok next ∧ Simulated threads next calls := by
  have uses : Uses threads calls id idx := .opened opening.answered
  have bound : idx < threads.shared.table.pageTable.length := by
    rw [refines.length, ← refines.tiled.placed.length]
    exact slot_lt_length opening.opened
  have start : threads.shared.table.baseAddr + idx * basePageSize ≠ 0 := by
    have nonnull := refines.nonnull
    rw [refines.base]
    omega
  have put := slot_setPage bound ⟨sizeClass size, threads.shared.table.baseAddr + idx * basePageSize, 0⟩
  have goes : (if tested then Stage.serve size idx else .look size idx).inside = some size := by
    cases tested <;> rfl
  refine ⟨_, Threads.install_eq bound start, calls, ?_, fun start history => ?_⟩
  · refine @Refines.moved threads _ calls _ id refines ⟨?_, fun _ _ => rfl, ?_, ?_, ?_, ?_, rfl⟩ Threads.keep_base
      ⟨Threads.keep_nrPages, rfl⟩ ?_ (Threads.keep_cursor.trans refines.cursor) refines.tiled refines.unshared
      ?_ ?_ ?_ ?_ ?_ ?_
    · exact fun other different => (Function.update_of_ne different _ _).trans (congrFun Threads.keep_stage other)
    · exact fun other different => ⟨Threads.keep_context_of_ne different, rfl⟩
    · intro other _
      exact iff_of_eq (congrArg (· = some other) Threads.keep_lock)
    · intro other different locks
      refine ⟨Threads.keep_medium ?_, rfl⟩
      intro sized
      cases locks.symm.trans ((refines.locked id).mpr ⟨size, by rw [stage, Stage.inside], sized⟩)
      exact different rfl
    · intro other idx' different otherUses
      refine ⟨(Threads.keep_slot idx').trans ((put idx').trans (if_neg ?_)), rfl⟩
      rintro rfl
      exact refines.apart different otherUses uses
    · refine (congrArg List.length Threads.keep_pageTable).trans ?_
      simp [Threads.withTable, setPage]
    · refine .opened ?_ ⟨opening.answered, ?_, opening.opened, opening.small, opening.medium⟩
      · cases tested
        · exact .inl (Function.update_self ..)
        · exact .inr (Function.update_self ..)
      · rw [← refines.base]
        exact (Threads.keep_slot idx).trans ((put idx).trans (if_pos rfl))
    · intro size' ptr idx' answered other otherSize otherPtr different otherAnswered
      exact different (refines.once _ _ _ _ _ _ _ otherAnswered answered)
    · intro idx' closed
      have apart : idx' ≠ idx := by
        rintro rfl
        exact closed id size _ opening.answered
      exact (Threads.keep_slot idx').trans (((put idx').trans (if_neg apart)).trans (refines.slots idx' closed))
    · intro _
      by_cases sized : sizeClass size = .small
      · have cached := opening.small sized
        rw [sized]
        refine (Function.update_self ..).trans ?_
        cases context : calls.object.contexts id with
        | mk page =>
            rw [context] at cached
            exact congrArg Context.mk cached.symm
      · refine (congrFun (Threads.keep_contexts sized) id).trans (refines.contexts id ?_)
        intro size' idx' tested' still
        cases stage.symm.trans still
        exact sized
    · intro unlocked _
      by_cases sized : sizeClass size = .medium
      · rw [opening.medium sized, sized]
        rfl
      · refine (Threads.keep_medium sized).trans (refines.buffer_same unlocked ?_)
        intro size' idx' tested' still
        cases stage.symm.trans still
        exact sized
    · refine (iff_of_eq (congrArg (· = some id) Threads.keep_lock)).trans ?_
      simp only [Threads.goTo, Threads.keep_stage]
      exact refines.still_locked (by rw [stage, Stage.inside]) goes
  · exact Threads.keep_history.symm ▸ history

/-- A call that knows the page that it would bump goes on as the atomic one does. -/
theorem Follows.of_buffer {buffer : Option Nat} (stage : next.stage id = Threads.fromBuffer size buffer)
    (status : calls.status id = .called size) (multiple : size % 8 = 0)
    (same : (calls.object.contexts id).buffer calls.object.table size = buffer) : Follows next calls id := by
  cases buffer with
  | some idx => exact .look stage status multiple same
  | none =>
      refine .refill stage status multiple fun selected => ?_
      cases same.symm.trans selected

theorem inside_fromBuffer (buffer : Option Nat) : (Threads.fromBuffer size buffer).inside = some size := by
  cases buffer <;> rfl

theorem Refines.enters (refines : Refines threads calls) (stage : threads.stage id = .entered size)
    (status : calls.status id = .called size) (multiple : size % 8 = 0) (entered : threads.enter id size = some next) :
    Simulated threads next calls := by
  have before (size' : Nat) (result : Option (Nat × Nat)) : calls.status id ≠ .answered size' result := by
    simp [status]
  have quiet (size' idx' : Nat) (tested : Bool) : threads.stage id ≠ .install size' idx' tested := by simp [stage]
  have buffer := Context.buffer_eq (calls.object.contexts id) calls.object.table size
  have unlocked : threads.bufferLock ≠ some id := by
    intro locks
    obtain ⟨_, inside, _⟩ := (refines.locked id).mp locks
    rw [stage, Stage.inside] at inside
    cases inside
  unfold Threads.enter at entered
  cases sized : sizeClass size with
  | small =>
      rw [sized] at entered buffer
      cases entered
      have cached := congrArg Context.localBufferPage (refines.context_same quiet)
      refine ⟨calls, ?_, fun start history => history⟩
      refine refines.turned rfl rfl (fun other different => Function.update_of_ne different _ _) (fun _ _ => rfl)
        (fun _ _ => Iff.rfl) quiet before before ?_ ?_
      · exact .of_buffer (Function.update_self ..) status multiple (buffer.trans cached.symm)
      · refine iff_of_false unlocked ?_
        rintro ⟨size', inside, medium⟩
        rw [Threads.goTo_stage, inside_fromBuffer] at inside
        cases inside
        cases sized.symm.trans medium
  | medium =>
      rw [sized] at entered buffer
      cases locks : threads.bufferLock with
      | some other =>
          rw [locks] at entered
          cases entered
      | none =>
          rw [locks] at entered
          cases entered
          have same := refines.medium_same (fun other _ taken => by cases locks.symm.trans taken) quiet
          refine ⟨calls, ?_, fun start history => history⟩
          refine refines.turned rfl rfl (fun other different => Function.update_of_ne different _ _) (fun _ _ => rfl)
            ?_ quiet before before ?_ ?_
          · intro other different
            rw [locks]
            exact iff_of_false (fun taken => different (Option.some.inj taken).symm) nofun
          · exact .of_buffer (Function.update_self ..) status multiple (buffer.trans same.symm)
          · refine iff_of_true rfl ⟨size, ?_, sized⟩
            rw [Threads.goTo_stage, inside_fromBuffer]
  | huge count =>
      rw [sized] at entered buffer
      cases entered
      refine ⟨calls, ?_, fun start history => history⟩
      refine refines.turned rfl rfl (fun other different => Function.update_of_ne different _ _) (fun _ _ => rfl)
        (fun _ _ => Iff.rfl) quiet before before ?_ ?_
      · refine .refill (Function.update_self ..) status multiple fun selected => ?_
        cases buffer.symm.trans selected
      · refine iff_of_false unlocked ?_
        rintro ⟨size', inside, medium⟩
        rw [Threads.goTo_stage, Stage.inside] at inside
        cases inside
        cases sized.symm.trans medium

/-- What the atomic calls make of one step of a thread. It does not panic. -/
theorem Refines.goes (refines : Refines threads calls) (id : Nat) :
    ∃ outcome, threads.go id = .ok outcome ∧ ∀ next, outcome = some next → Simulated threads next calls := by
  cases refines.follows id with
  | idle stage => exact ⟨none, by rw [Threads.go, stage], nofun⟩
  | entered stage status multiple =>
      exact ⟨_, by rw [Threads.go, stage], fun next => refines.enters stage status multiple⟩
  | look stage status multiple buffer =>
      obtain ⟨next, looked, simulated⟩ := refines.looks stage status multiple buffer
      refine ⟨some next, ?_, ?_⟩
      · simp only [Threads.go, stage, looked, bind, Except.bind]
      · rintro _ ⟨⟩
        exact simulated
  | refill stage status multiple noRoom =>
      refine ⟨_, by rw [Threads.go, stage], ?_⟩
      rintro _ ⟨⟩
      exact refines.claims stage status multiple noRoom
  | installing stage opening =>
      obtain ⟨next, installed, simulated⟩ := refines.installs stage opening
      refine ⟨some next, ?_, ?_⟩
      · simp only [Threads.go, stage, installed, bind, Except.bind]
      · rintro _ ⟨⟩
        exact simulated
  | @opened size idx stage opening =>
      obtain ⟨next, served, after, seen⟩ := refines.serves stage opening
      have simulated : Simulated threads next calls := by
        refine ⟨_, after, fun start history => ?_⟩
        rw [seen]
        exact history.give opening.answered
      refine ⟨some next, ?_, ?_⟩
      · rcases stage with stage | stage
        · have room : Threads.roomFor size (FlexPage.free ⟨sizeClass size, _, 0⟩) = true :=
            roomFor_iff.mpr (Context.hasRoom_opened size (calls.object.table.baseAddr + idx * basePageSize))
          simp only [Threads.go, stage, Threads.lookIn, freeIn_eq_ok.mpr ⟨_, opening.found, rfl⟩, room, served, bind,
            Except.bind, if_true]
        · simp only [Threads.go, stage, served, bind, Except.bind]
      · rintro _ ⟨⟩
        exact simulated

/-- A call begins. -/
theorem Refines.invokes (refines : Refines threads calls) (called : threads.call id size = .ok (some next)) :
    Simulated threads next calls := by
  obtain ⟨stage, multiple, rfl⟩ := Threads.call_eq_ok.mp called
  have status := (refines.follows id).idle_status stage
  refine ⟨calls.set id (.called size), ?_, fun start history => history.invoke status⟩
  refine refines.turned rfl rfl (fun other different => Function.update_of_ne different _ _)
    (fun other different => Calls.set_status_of_ne _ different _) (fun _ _ => Iff.rfl) ?_ ?_ ?_ ?_ ?_
  · simp [stage]
  · simp [status]
  · simp
  · exact .entered (Function.update_self ..) (Calls.set_status_self _ _ _) multiple
  · have locked := refines.locked id
    rw [stage, Stage.inside] at locked
    simpa only [Threads.goTo, Function.update_self, Stage.inside] using locked

theorem Refines.steps (refines : Refines threads calls) {action : Threads.Action}
    (taken : threads.step action = some next) : Simulated threads next calls := by
  rw [Threads.step_eq_some] at taken
  cases action with
  | call id size => exact refines.invokes taken
  | go id =>
      obtain ⟨outcome, gone, simulated⟩ := refines.goes id
      cases gone.symm.trans taken
      exact simulated next rfl

variable {baseAddr nrPages : Nat} {actions : List Threads.Action} {final : Threads}

/-- Along a whole run of the threads. -/
theorem Refines.along (nonnull : baseAddr ≠ 0)
    (ran : Transition.run Threads.step (Threads.new baseAddr nrPages) actions = some final) :
    ∃ calls, Refines final calls ∧
      History Allocator.Effect (.new (Allocator.new baseAddr nrPages)) final.history calls := by
  refine Transition.run_invariant (fun threads => ∃ calls, Refines threads calls ∧
    History Allocator.Effect (.new (Allocator.new baseAddr nrPages)) threads.history calls) ran
    ⟨_, .new nonnull, .nil⟩ ?_
  rintro threads action next ⟨calls, refines, history⟩ taken
  obtain ⟨later, after, seen⟩ := refines.steps taken
  exact ⟨later, after, seen _ history⟩

/-- When no call is under way, nothing is left of the order in which the threads took their steps. -/
theorem Refines.quiet (refines : Refines threads calls) (idle : ∀ id, threads.stage id = .idle) :
    calls.object = threads.shared ∧ ∀ id, calls.status id = .idle := by
  have statuses (id : Nat) : calls.status id = .idle := (refines.follows id).idle_status (idle id)
  have still (id size idx : Nat) (tested : Bool) : threads.stage id ≠ .install size idx tested := by simp [idle id]
  refine ⟨Allocator.ext ?_ ?_, statuses⟩
  · refine (PageTable.ext_slot refines.base refines.cursor refines.nrPages ?_ ?_ ?_).symm
    · rw [refines.length, refines.tiled.placed.length]
    · exact refines.medium fun id size idx tested stage => absurd stage (still id size idx tested)
    · refine fun idx => refines.slots idx fun id size ptr answered => ?_
      cases (statuses id).symm.trans answered
  · exact funext fun id => (refines.context_same (still id)).symm

/-- What calls that are served one after the other are granted. -/
def grantsOf (served : List (Nat × Nat × Option (Nat × Nat))) : List Grant :=
  served.flatMap fun (_, size, result) => Allocator.granted size result

theorem Allocator.grants_separate {served : List (Nat × Nat × Option (Nat × Nat))} {allocator : Allocator}
    (words : baseAddr % 8 = 0) (serves : Serves Allocator.Effect (Allocator.new baseAddr nrPages) served allocator) :
    (grantsOf served).Pairwise (fun left right => left.range.Separate right.range) ∧
      ∀ grant ∈ grantsOf served, grant.ptr % 8 = 0 ∧ grant.range.Within ⟨baseAddr, nrPages * basePageSize⟩ := by
  have kept := serves.invariant (fun served object => object.Tiled ∧ object.Sound (grantsOf served) ∧
    object.table.baseAddr = baseAddr ∧ object.table.nrPages = nrPages)
    ⟨.new _ _, ⟨by simp [grantsOf], by simp [grantsOf], .nil⟩, rfl, rfl⟩ ?_
  · obtain ⟨tiled, sound, base, pages⟩ := kept
    refine ⟨sound.separate, fun grant member => ⟨sound.aligned grant member, ?_⟩⟩
    obtain ⟨page, found, inside⟩ := sound.inPage grant member
    have inTable := page_within tiled.placed found
    rw [base, pages] at inTable
    exact (inside.trans (usedRange_within tiled.placed found)).trans inTable
  · rintro served object id size result next ⟨tiled, sound, base, pages⟩ taken
    obtain ⟨multiple, step⟩ := Allocator.call_step tiled taken
    obtain ⟨_, _, _, _, allocates⟩ := step.allocates
    refine ⟨step.tiled tiled multiple, ?_, allocates.frame.1.trans base, allocates.frame.2.1.trans pages⟩
    have grown := sound.grants tiled (base ▸ words) multiple step
    simpa [grantsOf, Request.size] using grown

/-- Threads that allocate at once, whatever the order of their steps, get what they would get of calls that
are served one after the other, in an order that puts a call that returned before another one began before
it. No two of them get overlapping memory, and when no call is under way the table and the contexts are
what those calls leave. -/
theorem allocations_linearizable (nonnull : baseAddr ≠ 0) (words : baseAddr % 8 = 0)
    (ran : Transition.run Threads.step (Threads.new baseAddr nrPages) actions = some final) :
    ∃ calls served, Orders Allocator.Effect (Allocator.new baseAddr nrPages) final.history calls served ∧
      ((∀ id, final.stage id = .idle) → calls.object = final.shared ∧ ∀ id, calls.status id = .idle) ∧
      (grantsOf served).Pairwise (fun left right => left.range.Separate right.range) ∧
      ∀ grant ∈ grantsOf served, grant.ptr % 8 = 0 ∧ grant.range.Within ⟨baseAddr, nrPages * basePageSize⟩ := by
  obtain ⟨calls, refines, history⟩ := Refines.along nonnull ran
  obtain ⟨served, orders, _⟩ := history.orders
  exact ⟨calls, served, orders, refines.quiet, Allocator.grants_separate words orders.serves⟩

/-- Two threads open a small page each, one while the other has claimed its own and not yet filled its
slot; then both ask for the medium buffer, and one has to wait for it. -/
def overlapping : List Threads.Action :=
  [.call 0 64, .call 1 128, .go 0, .go 1, .go 0, .go 1, .go 1, .go 1, .call 1 262144, .go 0, .go 0, .go 1,
    .call 0 524288, .go 1, .go 1, .go 1, .go 0, .go 0]

theorem allocations_linearizable_overlapping : ∃ final,
    Transition.run Threads.step (Threads.new 4096 9) overlapping = some final ∧
      ∃ calls served, Orders Allocator.Effect (Allocator.new 4096 9) final.history calls served ∧
        ((∀ id, final.stage id = .idle) → calls.object = final.shared ∧ ∀ id, calls.status id = .idle) ∧
        (grantsOf served).Pairwise (fun left right => left.range.Separate right.range) ∧
        ∀ grant ∈ grantsOf served, grant.ptr % 8 = 0 ∧ grant.range.Within ⟨4096, 9 * basePageSize⟩ := by
  obtain ⟨final, ran⟩ : ∃ final, Transition.run Threads.step (Threads.new 4096 9) overlapping = some final := by
    apply Option.isSome_iff_exists.mp
    decide +kernel
  exact ⟨final, ran, allocations_linearizable (by decide) (by decide) ran⟩

end UwUGC.Mm
