import UwUGC.Lib.Transition
import UwUGC.Gc.CopierRuns
import UwUGC.Gc.MarkerPlaces
import UwUGC.State.SystemSteps
import UwUGC.State.ContextsUpdates

/-! A whole cycle with no mutator in between: the marker to its end, the swap of the spaces, and
the copier over to-space in any order. -/

set_option autoImplicit false

namespace UwUGC

open Transition PageTable Mm

/-- The mapping behind a page table. -/
def PageTable.space (table : PageTable) : Span := ⟨table.baseAddr, table.nrPages * basePageSize⟩

namespace Gc.Collector

variable {Types Thread : Type} {manager : TypeManager Types} {state next : Collector Types Thread}

def advance (manager : TypeManager Types) (state : Collector Types Thread) (action : Action) :
    Option (Collector Types Thread) :=
  match act manager state action with
  | .ok next => next
  | .error _ => none

theorem advance_eq_some {action : Action} :
    advance manager state action = some next ↔ act manager state action = .ok (some next) := by
  unfold advance
  split
  · next taken => simp [taken]
  · next panicked => simp [panicked]

/-- What the marker of the next cycle is started with. -/
def input (manager : TypeManager Types) (state : Collector Types Thread) (second : PageTable) : MarkerInput Types where
  types := manager.assumeAllDead state.shared.types
  memory := state.memory
  roots := state.shared.contexts.rootSets
  pageTable := second
  heap := ⟨state.shared.mm.baseAddr, state.shared.mm.getUsedEndPage, second.baseAddr⟩
  markTrueBit := state.shared.markTrueBit

/-- A cycle is about to start, on a heap in one space with room for it in the other. -/
structure Startable (manager : TypeManager Types) (state : Collector Types Thread) (second : PageTable)
    (objects : List Nat) : Prop where
  flushed : state.phase = .flushed
  received : state.shared.secondMm.head? = some second
  cached : state.gc = .new
  wellFormed : (state.input manager second).WellFormed manager objects
  inSpace : ∀ obj ∈ objects,
    (manager.range (manager.assumeAllDead state.shared.types) state.memory obj).Within state.shared.mm.space
  apart : state.shared.mm.space.Separate second.space
  contexts : (state.shared.contexts.entries.map Prod.snd).Nodup

/-- The state while the marker runs. -/
def whileMarking (state : Collector Types Thread) (heap : HeapInfo) (bit : Bit) (reached : Memory × Marking) :
    Collector Types Thread :=
  { state with memory := reached.1, phase := .marking heap bit reached.2 }

theorem run_marks {heap : HeapInfo} {bit : Bit} {before final : Memory × Marking}
    (ran : Marking.Steps manager state.shared.types heap bit before final) :
    ∃ marks, run (advance manager) (state.whileMarking heap bit before) (List.replicate marks .mark) =
      some (state.whileMarking heap bit final) := by
  induction ran using Relation.ReflTransGen.head_induction_on with
  | refl => exact ⟨0, rfl⟩
  | @head before middle taken _ ih =>
      obtain ⟨marks, later⟩ := ih
      refine ⟨marks + 1, ?_⟩
      rw [List.replicate_succ, run_cons_eq_some]
      refine ⟨state.whileMarking heap bit middle, ?_, later⟩
      rw [advance_eq_some]
      simp only [act, mark, whileMarking, taken, bind, Except.bind]

/-- The state in which the marker of the next cycle starts. -/
def begun (manager : TypeManager Types) (state : Collector Types Thread) (second : PageTable) : Collector Types Thread :=
  state.snapshot manager second state.shared.secondMm.tail .new .new

theorem step1_returns {second : PageTable} {objects : List Nat} (startable : state.Startable manager second objects) :
    act manager state .step1 = .ok (some (state.begun manager second)) := by
  obtain ⟨queue, received⟩ := List.head?_eq_some_iff.mp startable.received
  simp only [act, step1, startable.flushed, received, startable.cached, PersistentState.new, unwrap_some, bind,
    Except.bind, begun, snapshot, List.tail_cons]

theorem step3_returns {heap : HeapInfo} {bit : Bit} {marking : Marking} {secondMm : PageTable}
    {contexts : State.Contexts Thread} (marks : state.phase = .marking heap bit marking)
    (ended : marking.step manager state.shared.types heap bit state.memory = .ok none)
    (prepared : state.Prepared heap marking secondMm contexts) :
    act manager state .step3 = .ok (some (state.swapped manager heap marking secondMm contexts)) := by
  simp only [act, step3, marks, ended, prepared.donated, prepared.mapped, bind, Except.bind, swapped]

/-- The state behind step 4. -/
def copied (state : Collector Types Thread) (copier : CopierActive) : Collector Types Thread :=
  { state with
    memory := clearSpace state.memory copier.fromMm
    gc := { state.gc with cachedRegistry := some copier.relocRegistry.unfreeze }
    phase := .cleared copier.fromMm }

theorem finish_returns {copier : CopierActive} (relocates : state.phase = .relocating copier)
    (finished : copier.finished = true) : act manager state .finish = .ok (some (state.copied copier)) := by
  simp only [act, Collector.finish, relocates, finished, if_true, copied]

theorem clearSpace_outside {memory : Memory} {mm : PageTable} {address : Nat} (outside : ¬ mm.space.Contains address) :
    clearSpace memory mm address = memory address := by
  rw [clearSpace, CopierActive.zeroed]
  exact Memory.copy_outside outside

end Gc.Collector

namespace Gc

variable {Types Thread : Type} {manager : TypeManager Types}

/-- Where a registry sends a pointer into from-space. -/
def destination (registry : FrozenRegistry) (heap : HeapInfoLater) (ptr : Nat) : Nat :=
  ((relocate registry heap "" ptr).toOption).getD 0

/-- Where the marker of a cycle has placed an object. -/
abbrev landing (input : MarkerInput Types) (marking : Marking) : Nat → Nat :=
  destination marking.registry.freeze ⟨input.heap.start, input.heap.toSpace⟩

theorem relocate_returns {registry : RegistryBuilder} {heap : HeapInfoLater} {record : RelocationRecord} {ptr : Nat}
    (separate : registry.data.recordsSortedBySrc.Pairwise fun left right =>
      left.getSrcRange.Separate right.getSrcRange)
    (filled : ∀ record ∈ registry.data.recordsSortedBySrc, 0 < record.size) (nonnull : heap.toSpace ≠ 0)
    (member : record ∈ registry.data.recordsSortedBySrc) (above : heap.start ≤ ptr)
    (source : record.src = ptr - heap.start) (text : String) :
    relocate registry.freeze heap text ptr = .ok (heap.toSpace + record.dest) := by
  have inside : record.getSrcRange.Contains (ptr - heap.start) := by
    have size := filled record member
    simp only [Span.Contains, Span.stop, RelocationRecord.getSrcRange]
    omega
  have found := FrozenRegistry.mapSrcToDest_found separate filled member inside
  have place : heap.toSpace + record.dest ≠ 0 := by omega
  simp only [relocate, checkedSub, if_pos above, bind, Except.bind, found, expect_some, source, Nat.sub_self,
    Nat.add_zero, objectPtr, if_neg place, unwrap_some]

/-- What the marker of a cycle leaves when it ends. -/
structure Ended (manager : TypeManager Types) (input : MarkerInput Types) (objects order : List Nat)
    (memory : Memory) (marking : Marking) : Prop where
  ended : marking.step manager input.types input.heap input.markTrueBit memory = .ok none
  nodup : order.Nodup
  reachable : ∀ obj, obj ∈ order ↔ input.Reachable manager obj
  marked : ∀ obj ∈ order, memory.metadata obj = { input.memory.metadata obj with isMarked := input.markTrueBit }
  unmarked : ∀ address, address ∉ order → memory address = input.memory address
  bodies : manager.SameBodies input.types input.memory memory objects
  recorded : Recorded manager input order marking.pageTable marking.registry
  packed : Marking.Packed input.heap input.pageTable marking

theorem ended_exists {input : MarkerInput Types} {objects order : List Nat}
    (wellFormed : input.WellFormed manager objects) (visits : input.Visits manager order) :
    ∃ memory marking, Marking.Steps manager input.types input.heap input.markTrueBit
        (input.memory, .start .new input.roots input.pageTable .new) (memory, marking) ∧
      Ended manager input objects order memory marking := by
  obtain ⟨nodup, reachable⟩ := visits.exact
  obtain ⟨search, memory, marking, steps, ended, rfl, follows, _⟩ := Marking.steps_exist wellFormed visits
  have start : Marking.Packed input.heap input.pageTable (.start .new input.roots input.pageTable .new) := .start _
  exact ⟨memory, marking, steps, ended, nodup, reachable, follows.marked, follows.unmarked, follows.bodies,
    follows.recorded, start.steps steps⟩

namespace Ended

variable {input : MarkerInput Types} {objects order : List Nat} {memory : Memory} {marking : Marking} {obj : Nat}
  (ended : Ended manager input objects order memory marking) (wellFormed : input.WellFormed manager objects)

include ended

theorem sizes : marking.records.map RelocationRecord.size = order.map (input.sizeOf manager) := by
  have pairs := congrArg (List.map Prod.snd) ended.recorded.sources
  rw [ended.packed.sources] at pairs
  simpa only [List.map_map, Function.comp_def] using pairs

theorem record_of (member : obj ∈ order) : ∃ record ∈ marking.registry.data.recordsSortedBySrc,
    record.src = obj - input.heap.start ∧ record.size = input.sizeOf manager obj := by
  have listed : (obj - input.heap.start, input.sizeOf manager obj) ∈
      marking.registry.data.recordsSortedBySrc.map fun record => (record.src, record.size) := by
    rw [ended.recorded.sources]
    exact List.mem_map_of_mem member
  obtain ⟨record, recorded, same⟩ := List.mem_map.mp listed
  exact ⟨record, recorded, (Prod.mk.inj same).1, (Prod.mk.inj same).2⟩

theorem object_of {record : RelocationRecord} (member : record ∈ marking.registry.data.recordsSortedBySrc) :
    ∃ obj ∈ order, record.src = obj - input.heap.start ∧ record.size = input.sizeOf manager obj := by
  have listed : (record.src, record.size) ∈
      order.map fun obj => (obj - input.heap.start, input.sizeOf manager obj) := by
    rw [← ended.recorded.sources]
    exact List.mem_map_of_mem member
  obtain ⟨obj, visited, same⟩ := List.mem_map.mp listed
  exact ⟨obj, visited, (Prod.mk.inj same).1.symm, (Prod.mk.inj same).2.symm⟩

include wellFormed

theorem mem_objects (member : obj ∈ order) : obj ∈ objects :=
  wellFormed.heap.reachable_mem wellFormed.roots ((ended.reachable obj).mp member)

theorem header_le {record : RelocationRecord} (member : record ∈ marking.registry.data.recordsSortedBySrc) :
    metadataSize ≤ record.size := by
  obtain ⟨obj, visited, _, size⟩ := ended.object_of member
  rw [size]
  exact wellFormed.heap.size_pos (ended.mem_objects wellFormed visited)

theorem filled : ∀ record ∈ marking.registry.data.recordsSortedBySrc, 0 < record.size := by
  intro record member
  have header := ended.header_le wellFormed member
  simp only [metadataSize] at header
  omega

theorem relocates_record {record : RelocationRecord} (recorded : record ∈ marking.registry.data.recordsSortedBySrc)
    (member : obj ∈ order) (source : record.src = obj - input.heap.start) :
    landing input marking obj = input.heap.toSpace + record.dest ∧
    ∀ text, relocate marking.registry.freeze ⟨input.heap.start, input.heap.toSpace⟩ text obj =
      .ok (landing input marking obj) := by
  have separate := ended.recorded.sources_apart wellFormed ended.nodup fun other => ended.mem_objects wellFormed
  have above := wellFormed.inHeap obj (ended.mem_objects wellFormed member)
  have found (text : String) : relocate marking.registry.freeze ⟨input.heap.start, input.heap.toSpace⟩ text obj =
      .ok (input.heap.toSpace + record.dest) :=
    relocate_returns separate (ended.filled wellFormed) wellFormed.nonnull recorded above source text
  have place : landing input marking obj = input.heap.toSpace + record.dest := by
    rw [landing, destination, found]
    rfl
  exact ⟨place, fun text => place ▸ found text⟩

theorem relocates (member : obj ∈ order) : ∃ record ∈ marking.registry.data.recordsSortedBySrc,
    record.src = obj - input.heap.start ∧ record.size = input.sizeOf manager obj ∧
    landing input marking obj = input.heap.toSpace + record.dest ∧
    ∀ text, relocate marking.registry.freeze ⟨input.heap.start, input.heap.toSpace⟩ text obj =
      .ok (landing input marking obj) := by
  obtain ⟨record, recorded, source, size⟩ := ended.record_of member
  exact ⟨record, recorded, source, size, ended.relocates_record wellFormed recorded member source⟩

abbrev copier (input : MarkerInput Types) (marking : Marking) (mm : PageTable) : CopierActive :=
  .start ⟨input.heap.start, input.heap.toSpace⟩ marking.registry.freeze mm marking.pageTable

omit wellFormed in
theorem records_eq (mm : PageTable) : (copier input marking mm).records = marking.registry.data.recordsSortedBySrc :=
  ended.packed.sources.symm

theorem laid (mm : PageTable) : (copier input marking mm).Laid := by
  obtain ⟨placed, base, _, held, starts⟩ := ended.packed.pages wellFormed.length
  refine ⟨placed, base.trans wellFormed.base, rfl, .new _, rfl, held, starts, ?_, ?_⟩
  · rw [ended.records_eq]
    exact ended.recorded.apart
  · intro record member
    rw [ended.records_eq] at member
    exact ended.header_le wellFormed member

theorem ascending (mm : PageTable) (ordered : InPageOrder (order.map (input.sizeOf manager))) :
    Ascending RelocationRecord.getDestRange (copier input marking mm).records :=
  ended.packed.ascending wellFormed.length (ended.sizes ▸ ordered)

/-- A visited object can be moved once all is marked. -/
theorem movable_marked {types : Types} {size : Nat} {slots : List Nat} (member : obj ∈ order)
    (shape : manager.Shape input.types input.memory obj size slots)
    (kept : manager.Movable types input.memory obj size slots) : manager.Movable types memory obj size slots := by
  have body := ended.bodies obj (ended.mem_objects wellFormed member)
  rw [shape.sizeOf_eq] at body
  exact kept.same_body body

theorem data_marked {size : Nat} {slots : List Nat} (member : obj ∈ order)
    (shape : manager.Shape input.types input.memory obj size slots) {slot : Nat} (inSlots : slot ∈ slots) :
    memory.data obj slot = input.memory.data obj slot := by
  have body := ended.bodies obj (ended.mem_objects wellFormed member)
  have within := shape.slot_within inSlots
  rw [shape.sizeOf_eq] at body
  exact body.data slot (by omega)

omit wellFormed in
theorem child_visited {size : Nat} {slots : List Nat} (member : obj ∈ order)
    (shape : manager.Shape input.types input.memory obj size slots) {slot : Nat} (inSlots : slot ∈ slots)
    (pointer : input.memory.data obj slot ≠ 0) : input.memory.data obj slot ∈ order := by
  have pointed : input.memory.data obj slot ∈ manager.children input.types input.memory obj := by
    rw [shape.children_eq]
    exact List.mem_filter.mpr ⟨List.mem_map_of_mem inSlots, decide_eq_true pointer⟩
  exact (ended.reachable _).mpr (GraphSearch.Reachable.child ((ended.reachable obj).mp member) pointed)

section Base

variable {mm : PageTable} (base : mm.baseAddr = input.heap.start)

include base

theorem source_of {record : RelocationRecord} (listed : record ∈ (copier input marking mm).records) :
    ∃ obj ∈ order, (copier input marking mm).source record = obj ∧
      (copier input marking mm).target record = ⟨landing input marking obj, input.sizeOf manager obj⟩ := by
  rw [ended.records_eq] at listed
  obtain ⟨obj, member, source, sized⟩ := ended.object_of listed
  refine ⟨obj, member, ?_, ?_⟩
  · have above := wellFormed.inHeap obj (ended.mem_objects wellFormed member)
    change mm.baseAddr + record.src = obj
    omega
  · rw [(ended.relocates_record wellFormed listed member source).1, ← sized]
    rfl

theorem target_of (member : obj ∈ order) : ∃ record ∈ (copier input marking mm).records,
    (copier input marking mm).source record = obj ∧
    (copier input marking mm).target record = ⟨landing input marking obj, input.sizeOf manager obj⟩ := by
  obtain ⟨record, recorded, source, size, place, _⟩ := ended.relocates wellFormed member
  refine ⟨record, ?_, ?_, ?_⟩
  · rw [ended.records_eq]
    exact recorded
  · have above := wellFormed.inHeap obj (ended.mem_objects wellFormed member)
    change mm.baseAddr + record.src = obj
    omega
  · rw [place, ← size]
    rfl

end Base

section Types

variable {mm : PageTable} {types : Types} (base : mm.baseAddr = input.heap.start)
  (kept : ∀ obj ∈ order, ∀ size slots, manager.Shape input.types input.memory obj size slots →
    manager.Movable types input.memory obj size slots)

include base kept

theorem sourced {fromSpace : Span}
    (inSpace : ∀ obj ∈ objects, (manager.range input.types input.memory obj).Within fromSpace)
    (apart : fromSpace.Separate ⟨input.heap.toSpace, marking.pageTable.nrPages * basePageSize⟩) :
    (copier input marking mm).Sourced manager types memory := by
  constructor
  case movable =>
    intro record listed
    obtain ⟨obj, member, source, target⟩ := ended.source_of wellFormed base listed
    have sized : record.size = input.sizeOf manager obj := congrArg Span.length target
    obtain ⟨size, slots, shape⟩ := wellFormed.heap.shaped obj (ended.mem_objects wellFormed member)
    rw [source, show record.size = size from sized.trans shape.sizeOf_eq]
    exact ⟨slots, ended.movable_marked wellFormed member shape (kept obj member size slots shape)⟩
  case outside =>
    intro record listed
    obtain ⟨obj, member, source, target⟩ := ended.source_of wellFormed base listed
    rw [source, show record.size = input.sizeOf manager obj from congrArg Span.length target]
    exact apart.within (inSpace obj (ended.mem_objects wellFormed member)) (.refl _)

theorem mapped : (copier input marking mm).Mapped manager types memory := by
  intro record listed slots shape slot inSlots pointer
  obtain ⟨obj, member, source, _⟩ := ended.source_of wellFormed base listed
  obtain ⟨size, slots', original⟩ := wellFormed.heap.shaped obj (ended.mem_objects wellFormed member)
  rw [source] at shape pointer ⊢
  obtain ⟨_, rfl⟩ :=
    (ended.movable_marked wellFormed member original (kept obj member size slots' original)).shape.unique shape
  rw [ended.data_marked wellFormed member original inSlots] at pointer ⊢
  obtain ⟨_, _, _, _, _, found⟩ := ended.relocates wellFormed (ended.child_visited member original inSlots pointer)
  exact ⟨_, found _⟩

end Types

end Ended

end Gc

end UwUGC
