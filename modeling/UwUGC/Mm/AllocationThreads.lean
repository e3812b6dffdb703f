import UwUGC.Lib.AtomicObject
import UwUGC.Lib.Transition
import UwUGC.Mm.AllocationRuns

/-! Allocation by several threads at once. A call is cut at every point where another thread can come
between: behind the `try_update` of the cursor, behind the filling of the slot that it moved from, and
before and behind the lock of a page. The medium buffer stays locked from its look to its return. -/

set_option autoImplicit false

namespace UwUGC

namespace PageTable

/-- The `try_update` of `alloc_page`. -/
def claimPages (table : PageTable) (kind : FlexPageKind) : Option (Nat × PageTable) :=
  let new := table.currentBasePage + kind.nrPages
  if new > table.nrPages then none
  else some (table.currentBasePage, { table with currentBasePage := new })

/-- What `alloc_page` does with the index that it has claimed. -/
def installPage (table : PageTable) (kind : FlexPageKind) (pageIndex : Nat) : Except Panic PageTable := do
  let _ ← table.getPage pageIndex
  let page ← FlexPage.new kind (table.baseAddr + pageIndex * basePageSize)
  .ok (table.setPage pageIndex page)

/-- Both together are `alloc_page`. -/
theorem allocPage_eq (table : PageTable) (kind : FlexPageKind) :
    table.allocPage kind = match table.claimPages kind with
      | none => .ok (none, table)
      | some (pageIndex, claimed) =>
          (claimed.installPage kind pageIndex).map fun table => (some pageIndex, table) := by
  unfold allocPage claimPages installPage
  by_cases exhausted : table.currentBasePage + kind.nrPages > table.nrPages
  · simp only [if_pos exhausted]
  · simp only [if_neg exhausted, getPage, setPage]
    generalize table.currentBasePage * basePageSize = offset
    cases table.pageTable[table.currentBasePage]? with
    | none => simp only [bind, Except.bind, Except.map]
    | some page =>
        cases FlexPage.new kind (table.baseAddr + offset) with
        | error panic => simp only [bind, Except.bind, Except.map]
        | ok page => simp only [bind, Except.bind, Except.map]

theorem ext_slot {left right : PageTable} (base : left.baseAddr = right.baseAddr)
    (cursor : left.currentBasePage = right.currentBasePage) (nrPages : left.nrPages = right.nrPages)
    (length : left.pageTable.length = right.pageTable.length) (medium : left.mediumBufferPage = right.mediumBufferPage)
    (slots : ∀ idx, left.slot idx = right.slot idx) : left = right := by
  have pages : left.pageTable = right.pageTable := by
    refine List.ext_getElem length fun idx lower upper => ?_
    have same := slots idx
    simpa only [slot, List.getElem?_eq_getElem lower, List.getElem?_eq_getElem upper, Option.getD_some] using same
  cases left
  cases right
  simp_all

end PageTable

namespace Mm

open AtomicObject

/-- How far the call of a thread has come. `tested` tells whether a page was found to be too full. -/
inductive Stage where
  | idle
  | entered (size : Nat)
  | look (size idx : Nat)
  | refill (size : Nat) (tested : Bool)
  | install (size idx : Nat) (tested : Bool)
  | serve (size idx : Nat)
deriving DecidableEq, Repr

/-- The threads that allocate from one page table, each with its own context. -/
structure Threads where
  shared : Allocator
  /-- Who has the medium buffer locked. -/
  bufferLock : Option Nat
  stage : Nat → Stage
  history : List (Event Nat Nat (Option (Nat × Nat)))

inductive Threads.Action where
  | call (id size : Nat)
  | go (id : Nat)
deriving DecidableEq, Repr

namespace Threads

def new (baseAddr nrPages : Nat) : Threads where
  shared := Allocator.new baseAddr nrPages
  bufferLock := none
  stage := fun _ => .idle
  history := []

def goTo (threads : Threads) (id : Nat) (stage : Stage) : Threads :=
  { threads with stage := Function.update threads.stage id stage }

@[simp] theorem goTo_stage (threads : Threads) (id : Nat) (stage : Stage) :
    (threads.goTo id stage).stage id = stage := by
  simp only [goTo, Function.update_self]

def withTable (threads : Threads) (table : PageTable) : Threads :=
  { threads with shared := { threads.shared with table } }

/-- The call returns, and drops the guard of the medium buffer if it has it. -/
def leave (threads : Threads) (id size : Nat) (result : Option (Nat × Nat)) : Threads where
  shared := threads.shared
  bufferLock := if threads.bufferLock = some id then none else threads.bufferLock
  stage := Function.update threads.stage id .idle
  history := threads.history ++ [.returned id size result]

/-- Where a call goes on from the page that it would bump. -/
def fromBuffer (size : Nat) : Option Nat → Stage
  | some idx => .look size idx
  | none => .refill size false

/-- A huge object goes past the buffers; a medium one waits for its turn at the shared one. -/
def enter (threads : Threads) (id size : Nat) : Option Threads :=
  match sizeClass size with
  | .small => some (threads.goTo id (fromBuffer size (threads.shared.contexts id).localBufferPage))
  | .medium =>
      match threads.bufferLock with
      | some _ => none
      | none => some ({ threads with bufferLock := some id }.goTo id
          (fromBuffer size threads.shared.table.mediumBufferPage))
  | .huge _ => some (threads.goTo id (.refill size true))

/-- The room tests differ, as in the source. -/
def roomFor (size free : Nat) : Bool :=
  match sizeClass size with
  | .small => decide (size < free)
  | .medium | .huge _ => decide (size ≤ free)

def serveIn (threads : Threads) (id size idx : Nat) : Except Panic Threads := do
  if sizeClass size = .medium then
    assert ((← threads.shared.table.freeIn idx) ≥ size) "assertion failed: page.free() >= size"
  let (result, table) ← threads.shared.table.allocIn idx size
  .ok ((threads.withTable table).leave id size result)

/-- Under the lock of its slot, the page is bumped if it has room. -/
def lookIn (threads : Threads) (id size idx : Nat) : Except Panic Threads := do
  if roomFor size (← threads.shared.table.freeIn idx) then threads.serveIn id size idx
  else .ok (threads.goTo id (.refill size true))

def claim (threads : Threads) (id size : Nat) (tested : Bool) : Threads :=
  match threads.shared.table.claimPages (sizeClass size) with
  | none => threads.leave id size none
  | some (idx, table) => (threads.withTable table).goTo id (.install size idx tested)

/-- The new page becomes the one to bump. -/
def keep (threads : Threads) (id : Nat) (kind : FlexPageKind) (idx : Nat) : Threads :=
  match kind with
  | .small => { threads with shared := { threads.shared with
      contexts := Function.update threads.shared.contexts id { localBufferPage := some idx } } }
  | .medium => threads.withTable { threads.shared.table with mediumBufferPage := some idx }
  | .huge _ => threads

def install (threads : Threads) (id size idx : Nat) (tested : Bool) : Except Panic Threads := do
  let table ← threads.shared.table.installPage (sizeClass size) idx
  .ok (((threads.withTable table).keep id (sizeClass size) idx).goTo id
    (if tested then .serve size idx else .look size idx))

def go (threads : Threads) (id : Nat) : Except Panic (Option Threads) :=
  match threads.stage id with
  | .idle => .ok none
  | .entered size => .ok (threads.enter id size)
  | .look size idx => do .ok (some (← threads.lookIn id size idx))
  | .refill size tested => .ok (some (threads.claim id size tested))
  | .install size idx tested => do .ok (some (← threads.install id size idx tested))
  | .serve size idx => do .ok (some (← threads.serveIn id size idx))

def call (threads : Threads) (id size : Nat) : Except Panic (Option Threads) :=
  match threads.stage id with
  | .idle => do
      assert (size % 8 = 0) "Object sizes must be multiple of 8"
      .ok (some { threads.goTo id (.entered size) with history := threads.history ++ [.invoked id size] })
  | _ => .ok none

def act (threads : Threads) : Action → Except Panic (Option Threads)
  | .call id size => threads.call id size
  | .go id => threads.go id

def step (threads : Threads) (action : Action) : Option Threads :=
  match threads.act action with
  | .ok next => next
  | .error _ => none

variable {threads next : Threads} {id size : Nat}

theorem step_eq_some {action : Action} : threads.step action = some next ↔ threads.act action = .ok (some next) := by
  unfold step
  cases threads.act action with
  | ok outcome => simp
  | error panic => simp

theorem call_eq_ok : threads.call id size = .ok (some next) ↔ threads.stage id = .idle ∧ size % 8 = 0 ∧
    { threads.goTo id (.entered size) with history := threads.history ++ [.invoked id size] } = next := by
  unfold call
  cases threads.stage id with
  | idle => simp [bind_eq_ok, assert_eq_ok]
  | entered => simp
  | look => simp
  | refill => simp
  | install => simp
  | serve => simp

end Threads

end Mm

end UwUGC
