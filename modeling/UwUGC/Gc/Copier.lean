import UwUGC.Bitmap
import UwUGC.Gc.Marker

/-! The copier. Nothing lies in to-space when it starts: a page is filled when it is first
touched, or when the worker pool comes to it. Filling a page is one step, since a page is
built in a buffer of its own and from-space does not change meanwhile. -/

set_option autoImplicit false

namespace UwUGC.Gc

def objectPtr (ptr : Nat) : Option Nat := if ptr = 0 then none else some ptr

structure HeapInfoLater where
  start : Nat
  toSpace : Nat
deriving DecidableEq, Repr

structure CopierActive where
  relocRegistry : FrozenRegistry
  heap : HeapInfoLater
  fromMm : PageTable
  workDone : AtomicBitmap
  zeroPageStart : Nat
  pageTable : PageTable
deriving DecidableEq, Repr

/-- A pointer into from-space as it is in to-space; `text` is what the caller expects. -/
def relocate (registry : FrozenRegistry) (heap : HeapInfoLater) (text : String) (ptr : Nat) : Except Panic Nat := do
  let offset ← checkedSub ptr heap.start
  let mapped ← expect text (← registry.mapSrcToDest offset)
  unwrap (objectPtr (heap.toSpace + mapped))

namespace CopierActive

def start (heap : HeapInfoLater) (relocRegistry : FrozenRegistry) (fromMm compactedPageTable : PageTable) :
    CopierActive where
  relocRegistry := relocRegistry
  heap := heap
  fromMm := fromMm
  workDone := .new compactedPageTable.nrPages
  zeroPageStart := compactedPageTable.getUsedEndPage
  pageTable := compactedPageTable

/-- Zeroes in place of whatever is there. -/
def zeroed (memory : Memory) (span : Span) : Memory := memory.copy (fun _ => 0) 0 span.start span.length

/-- The guard of both jobs: the bit of the page is set, and the job learns whether it was before. -/
def claim (copier : CopierActive) (pageId : Nat) : Except Panic (Bool × CopierActive) := do
  let (done, workDone) ← copier.workDone.set pageId true
  .ok (done, { copier with workDone })

/-- `do_zeropage` behind its guard. -/
def zeropage (copier : CopierActive) (memory : Memory) (pageId : Nat) : Memory :=
  let start := copier.pageTable.getBaseAddr + pageId * basePageSize
  zeroed memory ⟨start, basePageSize⟩

def doZeropage (copier : CopierActive) (memory : Memory) (pageId : Nat) : Except Panic (Memory × CopierActive) := do
  let (done, claimed) ← copier.claim pageId
  if done then .ok (memory, claimed) else .ok (copier.zeropage memory pageId, claimed)

variable {Types : Type} (manager : TypeManager Types) (types : Types)

/-- The object of one record, copied into the buffer of its page and fixed there. -/
def copyRecord (copier : CopierActive) (memory : Memory) (pageRange : Span) (record : RelocationRecord)
    (buffer : Memory) : Except Panic Memory := do
  let destRange := record.getDestRange
  assert (pageRange.Contains destRange.start) "assertion failed: page_range.contains(&dest_range.start)"
  assert (pageRange.Contains (← checkedSub destRange.stop 1))
    "assertion failed: page_range.contains(&(dest_range.end - 1))"
  let dest ← checkedSub record.dest pageRange.start
  manager.updateGcPointers types (relocate copier.relocRegistry copier.heap "Cant find relocation record")
    (buffer.copy memory (copier.fromMm.baseAddr + record.src) dest record.size) dest

def copyRecords (copier : CopierActive) (memory : Memory) (pageRange : Span) :
    List RelocationRecord → Memory → Except Panic Memory
  | [], buffer => .ok buffer
  | record :: rest, buffer => do
      let buffer ← copyRecord manager types copier memory pageRange record buffer
      copyRecords copier memory pageRange rest buffer

/-- `do_relocate` behind its guard. The buffer is a fresh mapping, so it starts out zero. -/
def relocatePage (copier : CopierActive) (memory : Memory) (page : FlexPage) : Except Panic Memory := do
  let pageRange : Span := ⟨← checkedSub page.start copier.heap.toSpace, page.size⟩
  let records := copier.relocRegistry.iterateRecordsInDestRange pageRange
  let buffer ← copyRecords manager types copier memory pageRange records fun _ => 0
  let dest := copier.heap.toSpace + (← checkedSub page.start copier.pageTable.getBaseAddr)
  .ok (memory.copy buffer 0 dest page.size)

def doRelocate (copier : CopierActive) (memory : Memory) (pageId : Nat) (page : FlexPage) :
    Except Panic (Memory × CopierActive) := do
  let (done, claimed) ← copier.claim pageId
  if done then .ok (memory, claimed) else .ok (← relocatePage manager types copier memory page, claimed)

def resolveFault (copier : CopierActive) (memory : Memory) (addr : Nat) : Except Panic (Memory × CopierActive) := do
  let pageId := (← checkedSub addr copier.heap.toSpace) >>> basePageShift
  if pageId ≥ copier.zeroPageStart then copier.doZeropage memory pageId
  else
    match ← copier.pageTable.resolveToPage addr with
    | none => copier.doZeropage memory pageId
    | some pageId => do
        let page ← unwrap (← copier.pageTable.getPage pageId)
        doRelocate manager types copier memory pageId page

def present (copier : CopierActive) (addr : Nat) : Bool :=
  let pageId := (addr - copier.heap.toSpace) >>> basePageShift
  if addr < copier.heap.toSpace ∨ pageId ≥ copier.pageTable.nrPages then true
  else if pageId ≥ copier.zeroPageStart then copier.workDone.bit pageId
  else
    match copier.pageTable.resolveToPage addr with
    | .ok (some pageId) => copier.workDone.bit pageId
    | _ => copier.workDone.bit pageId

theorem claim_eq_ok {copier claimed : CopierActive} {pageId : Nat} {done : Bool} :
    copier.claim pageId = .ok (done, claimed) ↔
      ∃ workDone, copier.workDone.set pageId true = .ok (done, workDone) ∧ claimed = { copier with workDone } := by
  simp only [claim, bind_eq_ok, Prod.exists, Except.ok.injEq, Prod.mk.injEq]
  constructor
  · rintro ⟨_, workDone, set, rfl, rfl⟩
    exact ⟨workDone, set, rfl⟩
  · rintro ⟨workDone, set, rfl⟩
    exact ⟨_, workDone, set, rfl, rfl⟩

/-- The workers have come to every page. -/
def finished (copier : CopierActive) : Bool :=
  (List.range copier.pageTable.nrPages).all fun idx =>
    (copier.pageTable.slot idx).isNone || copier.workDone.bit idx

end CopierActive

end UwUGC.Gc
