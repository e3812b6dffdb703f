import UwUGC.Mm.Context
import UwUGC.TypeManager

/-! How a mutator allocates: the size from the type and the extra bytes, the room from its
allocation context, and the header. -/

set_option autoImplicit false

namespace UwUGC.State

/-- `usize` is 64 bits wide. -/
inductive AllocType where
  | typed (typeId : UInt64)
  | plainOldData (size : UInt64)
deriving DecidableEq, Repr

/-- What an allocation reads and writes: the allocation context of the mutator and what
it shares with the others. -/
structure Mutator (Types : Type) where
  mmContext : Mm.Context
  mm : PageTable
  types : Types
  markTrueBit : Bit
  memory : Memory

variable {Types : Type}

def AllocType.toObjKind : AllocType → MetadataEnum
  | plainOldData size => .plainOldData size
  | typed typeId => .notPlainOldData typeId

namespace Mutator

def getSizeOfAlloc (manager : TypeManager Types) (mutator : Mutator Types) (ty : AllocType) : Except Panic Nat := do
  let size ← match ty with
    | .plainOldData size => .ok size.toNat
    | .typed typeId => do unwrap (← manager.getStaticSize mutator.types typeId)
  checkedAdd size metadataSize

def initObject (mutator : Mutator Types) (ptr : Nat) (kind : MetadataEnum) : Memory :=
  mutator.memory.writeHeader ptr
    (.new { isMarked := mutator.markTrueBit.not, payload := kind, writeBarrierActivated := false })

/-- The bytes that an allocation asks its context for. -/
def requestedBytes (manager : TypeManager Types) (mutator : Mutator Types) (ty : AllocType) (extraBytes : Nat) :
    Except Panic Nat := do
  checkedAdd (← mutator.getSizeOfAlloc manager ty) extraBytes

def allocFast (manager : TypeManager Types) (mutator : Mutator Types) (ty : AllocType) (extraBytes : Nat) :
    Except Panic (Option Nat × Mutator Types) := do
  let kind := ty.toObjKind
  let size ← mutator.requestedBytes manager ty extraBytes
  let (result, mmContext, mm) ← mutator.mmContext.allocFromPageTable mutator.mm size
  match result with
  | some (ptr, _) => .ok (some ptr, { mutator with mmContext, mm, memory := mutator.initObject ptr kind })
  | none => .ok (none, { mutator with mmContext, mm })

/-- The retries of `alloc_slow`; each has the body of `alloc_fast`. `waitCycle` is what the
others and the collector do while this mutator waits for a cycle. -/
def retryAlloc (manager : TypeManager Types) (waitCycle : Mutator Types → Mutator Types) (ty : AllocType)
    (extraBytes : Nat) : Nat → Mutator Types → Except Panic (Option Nat × Mutator Types)
  | 0, mutator => .ok (none, mutator)
  | retries + 1, mutator => do
      let (result, mutator) ← mutator.allocFast manager ty extraBytes
      match result with
      | some ptr => .ok (some ptr, mutator)
      | none => retryAlloc manager waitCycle ty extraBytes retries (waitCycle mutator)

def allocSlow (manager : TypeManager Types) (waitCycle : Mutator Types → Mutator Types) (mutator : Mutator Types)
    (ty : AllocType) (extraBytes : Nat) : Except Panic (Option Nat × Mutator Types) :=
  retryAlloc manager waitCycle ty extraBytes 3 mutator

end Mutator

end UwUGC.State
