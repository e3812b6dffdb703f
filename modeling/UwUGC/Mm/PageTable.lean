import UwUGC.Mm.Page

/-! The page table of one space. A slot holds the `FlexPage` that starts at its
base page; the other base pages of a longer `FlexPage` keep empty slots. Each
call runs under the locks of the source, so a call is one step. -/

set_option autoImplicit false

namespace UwUGC

structure PageTable where
  baseAddr : Nat
  currentBasePage : Nat
  nrPages : Nat
  pageTable : List (Option FlexPage)
  mediumBufferPage : Option Nat
deriving DecidableEq, Repr

namespace PageTable

def new (baseAddr nrPages : Nat) : PageTable where
  baseAddr := baseAddr
  currentBasePage := 0
  nrPages := nrPages
  pageTable := List.replicate nrPages none
  mediumBufferPage := none

def slot (table : PageTable) (idx : Nat) : Option FlexPage := (table.pageTable[idx]?).getD none

def getPage (table : PageTable) (idx : Nat) : Except Panic (Option FlexPage) :=
  match table.pageTable[idx]? with
  | some page => .ok page
  | none => .error .indexOutOfBounds

def setPage (table : PageTable) (idx : Nat) (page : FlexPage) : PageTable :=
  { table with pageTable := table.pageTable.set idx (some page) }

def getUsedEndPage (table : PageTable) : Nat := table.currentBasePage

def getTopAddr (table : PageTable) : Nat :=
  table.baseAddr + table.currentBasePage * basePageSize

def getBaseAddr (table : PageTable) : Nat := table.baseAddr

def clear (table : PageTable) : PageTable :=
  { table with
    currentBasePage := 0
    pageTable := table.pageTable.map fun _ => none
    mediumBufferPage := none }

/-- The backward search of `resolve_to_page` from an index. -/
def searchBack (table : PageTable) (addr : Nat) (current : Nat) : Except Panic (Option Nat) := do
  match ← table.getPage current with
  | some page =>
      if addr ≥ page.start ∧ addr < page.limit then .ok (some current) else .ok none
  | none =>
      match current with
      | 0 => .ok none
      | previous + 1 => table.searchBack addr previous

def resolveToPage (table : PageTable) (addr : Nat) : Except Panic (Option Nat) :=
  if addr < table.baseAddr then .ok none
  else
    let pageId := (addr - table.baseAddr) >>> basePageShift
    if pageId ≥ table.getUsedEndPage then .ok none
    else table.searchBack addr pageId

/-- Machine subtraction modulo `2 ^ 64`. -/
def wrappingSub (left right : Nat) : Nat :=
  (left % 2 ^ 64 + 2 ^ 64 - right % 2 ^ 64) % 2 ^ 64

/-- The division binds tighter than the subtraction, and the cursor moves before
the slot is looked at; both are as in the source. The state after a panic is
returned with it. -/
def donatePage (table : PageTable) (page : FlexPage) : Except Panic Unit × PageTable :=
  let pageId := wrappingSub (page.start / basePageSize) table.baseAddr
  if pageId > table.nrPages then
    (.error (.message "Attempt to donate page that represent space outside of current space"), table)
  else if pageId ≥ table.currentBasePage then
    let moved := { table with currentBasePage := pageId + page.nrPages }
    match table.pageTable[pageId]? with
    | none => (.error .indexOutOfBounds, moved)
    | some (some _) =>
        (.error (.message "assertion failed: self.page_table[page_id].get_mut().is_none()"), moved)
    | some none => (.ok (), moved.setPage pageId page)
  else (.error (.message "Attempt to donate page out of order"), table)

/-- The cursor moves first; the new page then fills the slot it moved from. -/
def allocPage (table : PageTable) (kind : FlexPageKind) : Except Panic (Option Nat × PageTable) :=
  let pageIndex := table.currentBasePage
  let new := pageIndex + kind.nrPages
  if new > table.nrPages then .ok (none, table)
  else do
    let _ ← table.getPage pageIndex
    let page ← FlexPage.new kind (table.baseAddr + pageIndex * basePageSize)
    .ok (some pageIndex, ({ table with currentBasePage := new }).setPage pageIndex page)

/-- The free bytes of the page in a slot. -/
def freeIn (table : PageTable) (idx : Nat) : Except Panic Nat := do
  let page ← unwrap (← table.getPage idx)
  .ok page.free

/-- Bump the page in a slot, with the two `unwrap`s of the callers. -/
def allocIn (table : PageTable) (idx : Nat) (size : Nat) : Except Panic (Option (Nat × Nat) × PageTable) := do
  let page ← unwrap (← table.getPage idx)
  let (ptr, updated) ← unwrap (page.alloc size)
  .ok (some (ptr, idx), table.setPage idx updated)

/-- `*buf_id = Some(self.alloc_page(FlexPageKind::Medium)?)`. -/
def refillMedium (table : PageTable) : Except Panic (Option Nat × PageTable) :=
  tryThen (table.allocPage .medium) fun idx table =>
    .ok (some idx, { table with mediumBufferPage := some idx })

def divCeil (left right : Nat) : Nat := (left + right - 1) / right

/-- The shared medium path once a buffer page is there: a page without room is
replaced, and the page that is left is bumped. -/
def allocInBuffer (table : PageTable) (bufId size : Nat) : Except Panic (Option (Nat × Nat) × PageTable) := do
  let room : Except Panic (Option Nat × PageTable) :=
    if (← table.freeIn bufId) < size then table.refillMedium else .ok (some bufId, table)
  tryThen room fun bufId table => do
    assert ((← table.freeIn bufId) ≥ size) "assertion failed: page.free() >= size"
    table.allocIn bufId size

def alloc (table : PageTable) (size : Nat) : Except Panic (Option (Nat × Nat) × PageTable) := do
  assert (size % 8 = 0) "Object sizes must be multiple of 8"
  if size ≥ FlexPageKind.medium.maxObjectSize then
    -- A huge object skips over the medium buffer.
    tryThen (table.allocPage (.huge (divCeil size basePageSize))) fun pageId table =>
      table.allocIn pageId size
  else
    let buffer : Except Panic (Option Nat × PageTable) := match table.mediumBufferPage with
      | some bufId => .ok (some bufId, table)
      | none => table.refillMedium
    tryThen buffer fun bufId table => table.allocInBuffer bufId size

end PageTable

end UwUGC
