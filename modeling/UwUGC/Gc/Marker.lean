import UwUGC.TypeManager
import UwUGC.RootSet
import UwUGC.Mm.Context
import UwUGC.Gc.RelocationMap

/-! The marker. Its visitor loop is cut where a mutator can run in between: popping
an object, marking it, and scanning it are one step each. The statistics that
the source counts and prints are left out. -/

set_option autoImplicit false

namespace UwUGC.Gc

/-- What step 1 captures of the heap. -/
structure HeapInfo where
  start : Nat
  usedEndPage : Nat
  toSpace : Nat
deriving DecidableEq, Repr

structure Marker where
  /-- The top of the stack comes first. -/
  markStack : List Nat
deriving DecidableEq, Repr

def Marker.new : Marker := ⟨[]⟩

/-- Where the visitor loop stands with an object it has popped. -/
inductive InHand where
  | popped (obj : Nat)
  | marked (obj : Nat)
deriving DecidableEq, Repr

structure Marking where
  /-- The pointers of the saved roots that are still to be visited. -/
  roots : List Nat
  markStack : List Nat
  inHand : Option InHand
  pageTable : PageTable
  moveContext : Mm.Context
  registry : RegistryBuilder
deriving DecidableEq, Repr

namespace Marking

/-- The state in which `Marker::start` enters its loops. -/
def start (marker : Marker) (roots : List RootSet) (pageTable : PageTable) (registry : RegistryBuilder) :
    Marking where
  roots := roots.flatMap RootSet.iterPointers
  markStack := marker.markStack
  inHand := none
  pageTable := pageTable.clear
  moveContext := Mm.Context.new
  registry := registry

/-- The closure given to `try_update`. -/
def setMark (markTrueBit : Bit) (x : MetadataExpanded) : Option MetadataExpanded :=
  if x.isMarked = markTrueBit then none else some { x with isMarked := markTrueBit }

def mark (markTrueBit : Bit) (memory : Memory) (marking : Marking) (obj : Nat) : Memory × Marking :=
  match memory.tryUpdate obj (setMark markTrueBit) with
  | (.ok _, memory) => (memory, { marking with inHand := some (.marked obj) })
  | (.error _, memory) => (memory, { marking with inHand := none })

variable {Types : Type} (manager : TypeManager Types) (types : Types) (heap : HeapInfo)

def scan (memory : Memory) (marking : Marking) (obj : Nat) : Except Panic Marking := do
  let size ← manager.getSize types memory obj
  let (served, moveContext, pageTable) ← marking.moveContext.allocFromPageTable marking.pageTable size
  let (ptr, _) ← unwrap served
  let src ← checkedSub obj heap.start
  let dest ← checkedSub ptr heap.toSpace
  let pointed ← manager.iterateGcPointers types memory obj
  .ok { marking with
    markStack := pointed.reverse ++ marking.markStack
    inHand := none
    pageTable := pageTable
    moveContext := moveContext
    registry := marking.registry.insert { src := src, dest := dest, size := size } }

/-- One step; `none` when the last root is visited and the stack is empty. -/
def step (markTrueBit : Bit) (memory : Memory) (marking : Marking) :
    Except Panic (Option (Memory × Marking)) :=
  match marking.inHand with
  | some (.popped obj) => .ok (some (marking.mark markTrueBit memory obj))
  | some (.marked obj) => do
      let scanned ← scan manager types heap memory marking obj
      .ok (some (memory, scanned))
  | none =>
      match marking.markStack with
      | obj :: rest => .ok (some (memory, { marking with markStack := rest, inHand := some (.popped obj) }))
      | [] =>
          match marking.roots with
          | root :: later => .ok (some (memory, { marking with roots := later, markStack := [root] }))
          | [] => .ok none

/-- The loops of `Marker::start` run to their end; `none` when the fuel runs out first. -/
def finish (markTrueBit : Bit) : Nat → Memory → Marking → Except Panic (Option (Memory × Marking))
  | 0, _, _ => .ok none
  | fuel + 1, memory, marking => do
      match ← step manager types heap markTrueBit memory marking with
      | some (memory, marking) => finish markTrueBit fuel memory marking
      | none => .ok (some (memory, marking))

end Marking

/-- What one call of `Marker::start` is given beside the cached marker and registry. -/
structure MarkerInput (Types : Type) where
  types : Types
  memory : Memory
  roots : List RootSet
  pageTable : PageTable
  heap : HeapInfo
  markTrueBit : Bit

/-- What the call leaves behind. -/
structure MarkerOutput where
  memory : Memory
  marker : Marker
  registry : RegistryBuilder
  pageTable : PageTable

namespace Marker

variable {Types : Type} (manager : TypeManager Types)

def start (marker : Marker) (registry : RegistryBuilder) (input : MarkerInput Types) (fuel : Nat) :
    Except Panic (Option MarkerOutput) := do
  match ← Marking.finish manager input.types input.heap input.markTrueBit fuel input.memory
      (Marking.start marker input.roots input.pageTable registry) with
  | some (memory, marking) =>
      .ok (some ⟨memory, ⟨marking.markStack⟩, marking.registry, marking.pageTable⟩)
  | none => .ok none

/-- One cycle after the other: the marker is cached, and its registry comes back
frozen and unfrozen. -/
def startEach (marker : Marker) (registry : RegistryBuilder) :
    List (MarkerInput Types × Nat) → Except Panic (Option (List MarkerOutput))
  | [] => .ok (some [])
  | (input, fuel) :: rest => do
      match ← start manager marker registry input fuel with
      | some output => do
          match ← startEach output.marker output.registry.freeze.unfreeze rest with
          | some later => .ok (some (output :: later))
          | none => .ok none
      | none => .ok none

end Marker

end UwUGC.Gc
