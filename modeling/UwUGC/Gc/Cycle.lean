import UwUGC.Gc.Copier
import UwUGC.State.Contexts

/-! A cycle of the collector: the steps that stop the world, and between them the steps of
the marker and of the copier, one at a time. -/

set_option autoImplicit false

namespace UwUGC.Gc

open State (Contexts)

/-- The head of `secondMm` is received next. A space is mapped where its page table starts. -/
structure SharedState (Types Thread : Type) where
  mm : PageTable
  secondMm : List PageTable
  contexts : Contexts Thread
  markTrueBit : Bit
  types : Types

structure PersistentState where
  cachedRegistry : Option RegistryBuilder
  cachedMarker : Option Marker
deriving DecidableEq, Repr

def PersistentState.new : PersistentState where
  cachedRegistry := some .new
  cachedMarker := some .new

/-- What the collector holds between the steps of a cycle. -/
inductive Phase where
  | idle
  | flushed
  | marking (heap : HeapInfo) (markTrueBit : Bit) (marking : Marking)
  | relocating (copier : CopierActive)
  | cleared (secondMm : PageTable)
deriving DecidableEq, Repr

structure Collector (Types Thread : Type) where
  memory : Memory
  shared : SharedState Types Thread
  gc : PersistentState
  phase : Phase

namespace Collector

variable {Types Thread : Type} (manager : TypeManager Types)

/-- `UwUGC::new`; the first cycle makes the persistent state. -/
def new (firstMm secondMm : PageTable) (types : Types) : Collector Types Thread where
  memory := fun _ => 0
  shared := {
    mm := firstMm
    secondMm := [secondMm]
    contexts := .new
    markTrueBit := .bit1
    types := types }
  gc := .new
  phase := .idle

def flush (state : Collector Types Thread) : Except Panic (Option (Collector Types Thread)) :=
  match state.phase with
  | .idle => .ok (some { state with
      shared := { state.shared with contexts := state.shared.contexts.flush }
      phase := .flushed })
  | _ => .ok none

/-- Step 1, and step 2 up to the loops of the marker. It waits for a cleared space. -/
def step1 (state : Collector Types Thread) : Except Panic (Option (Collector Types Thread)) :=
  match state.phase, state.shared.secondMm with
  | .flushed, second :: queue => do
      let markTrueBit := state.shared.markTrueBit
      let heap : HeapInfo := {
        start := state.shared.mm.baseAddr
        usedEndPage := state.shared.mm.getUsedEndPage
        toSpace := second.baseAddr }
      let registry ← unwrap state.gc.cachedRegistry
      let marker ← unwrap state.gc.cachedMarker
      .ok (some { state with
        shared := { state.shared with
          secondMm := queue
          markTrueBit := markTrueBit.not
          types := manager.assumeAllDead state.shared.types }
        gc := { cachedRegistry := none, cachedMarker := none }
        phase := .marking heap markTrueBit (.start marker state.shared.contexts.rootSets second registry) })
  | _, _ => .ok none

def mark (state : Collector Types Thread) : Except Panic (Option (Collector Types Thread)) :=
  match state.phase with
  | .marking heap markTrueBit marking => do
      match ← marking.step manager state.shared.types heap markTrueBit state.memory with
      | some (memory, marking) => .ok (some { state with memory, phase := .marking heap markTrueBit marking })
      | none => .ok none
  | _ => .ok none

/-- The table that a call of `donate_page` leaves if it returns. -/
def donated (outcome : Except Panic Unit × PageTable) : Except Panic PageTable :=
  outcome.1.map fun _ => outcome.2

def donatePages (mm : PageTable) : List Nat → PageTable → Except Panic PageTable
  | [], secondMm => .ok secondMm
  | idx :: rest, secondMm => do
      match ← mm.getPage idx with
      | none => donatePages mm rest secondMm
      | some page => do
          let secondMm ← donated (secondMm.donatePage page)
          donatePages mm rest secondMm

/-- Step 3, once the marker is through. -/
def step3 (state : Collector Types Thread) : Except Panic (Option (Collector Types Thread)) :=
  match state.phase with
  | .marking heap markTrueBit marking => do
      match ← marking.step manager state.shared.types heap markTrueBit state.memory with
      | some _ => .ok none
      | none => do
          let usedEndPage := state.shared.mm.getUsedEndPage
          let secondMm ← donatePages state.shared.mm
            (List.range' heap.usedEndPage (usedEndPage - heap.usedEndPage)) marking.pageTable
          let registryFrozen := marking.registry.freeze
          let heapInfo : HeapInfoLater := ⟨heap.start, heap.toSpace⟩
          let contexts ← state.shared.contexts.mapRoots
            (relocate registryFrozen heapInfo "Cannot find relocation record")
          .ok (some { state with
            shared := { state.shared with
              mm := secondMm
              contexts := contexts
              types := manager.wipeDeads state.shared.types }
            gc := { state.gc with cachedMarker := some ⟨marking.markStack⟩ }
            phase := .relocating (.start heapInfo registryFrozen state.shared.mm secondMm) })
  | _ => .ok none

/-- The copier at an address: a fault of a mutator, or a job of the workers. -/
def resolve (state : Collector Types Thread) (addr : Nat) : Except Panic (Option (Collector Types Thread)) :=
  match state.phase with
  | .relocating copier => do
      let (memory, copier) ← copier.resolveFault manager state.shared.types state.memory addr
      .ok (some { state with memory, phase := .relocating copier })
  | _ => .ok none

/-- `MM::clear` gives the memory back and leaves the page table. -/
def clearSpace (memory : Memory) (mm : PageTable) : Memory :=
  CopierActive.zeroed memory ⟨mm.baseAddr, mm.nrPages * basePageSize⟩

/-- The end of step 4. -/
def finish (state : Collector Types Thread) : Except Panic (Option (Collector Types Thread)) :=
  match state.phase with
  | .relocating copier =>
      if copier.finished then
        .ok (some { state with
          memory := clearSpace state.memory copier.fromMm
          gc := { state.gc with cachedRegistry := some copier.relocRegistry.unfreeze }
          phase := .cleared copier.fromMm })
      else .ok none
  | _ => .ok none

def step5 (state : Collector Types Thread) : Except Panic (Option (Collector Types Thread)) :=
  match state.phase with
  | .cleared secondMm => .ok (some { state with
      memory := clearSpace state.memory secondMm
      shared := { state.shared with secondMm := state.shared.secondMm ++ [secondMm] }
      phase := .idle })
  | _ => .ok none

inductive Action where
  | flush
  | step1
  | mark
  | step3
  | resolve (addr : Nat)
  | finish
  | step5
deriving DecidableEq, Repr

def act (state : Collector Types Thread) : Action → Except Panic (Option (Collector Types Thread))
  | .flush => state.flush
  | .step1 => state.step1 manager
  | .mark => state.mark manager
  | .step3 => state.step3 manager
  | .resolve addr => state.resolve manager addr
  | .finish => state.finish
  | .step5 => state.step5

end Collector

end UwUGC.Gc
