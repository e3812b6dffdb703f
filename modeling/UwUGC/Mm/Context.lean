import UwUGC.Mm.PageTable

/-! The allocation context of one thread: the index of the small page it bumps.
It does not remember which page table the index belongs to. -/

set_option autoImplicit false

namespace UwUGC.Mm

structure Context where
  localBufferPage : Option Nat
deriving DecidableEq, Repr

namespace Context

def new : Context where
  localBufferPage := none

def flushLocalBuf (_context : Context) : Context where
  localBufferPage := none

/-- `self.local_buffer_page = Some(page_table.alloc_page(FlexPageKind::Small)?)`. -/
def refillSmall (context : Context) (table : PageTable) : Except Panic (Option Nat × Context × PageTable) := do
  match ← table.allocPage .small with
  | (some idx, table) => .ok (some idx, { localBufferPage := some idx }, table)
  | (none, table) => .ok (none, context, table)

/-- The local path once a buffer page is there. The room test refuses an exact
fit; the shared path of `PageTable.alloc` accepts one. -/
def allocInBuffer (context : Context) (table : PageTable) (idx size : Nat) :
    Except Panic (Option (Nat × Nat) × Context × PageTable) := do
  let room : Except Panic (Option Nat × Context × PageTable) :=
    if size ≥ (← table.freeIn idx) then context.refillSmall table else .ok (some idx, context, table)
  tryThen room fun idx (context, table) => do
    let (result, table) ← table.allocIn idx size
    .ok (result, context, table)

def allocFromPageTable (context : Context) (table : PageTable) (size : Nat) :
    Except Panic (Option (Nat × Nat) × Context × PageTable) := do
  assert (size % 8 = 0) "Object sizes must be multiple of 8"
  if size ≥ FlexPageKind.small.maxObjectSize then
    let (result, table) ← table.alloc size
    .ok (result, context, table)
  else
    let buffer : Except Panic (Option Nat × Context × PageTable) := match context.localBufferPage with
      | some idx => .ok (some idx, context, table)
      | none => context.refillSmall table
    tryThen buffer fun idx (context, table) => context.allocInBuffer table idx size

end Context

end UwUGC.Mm
