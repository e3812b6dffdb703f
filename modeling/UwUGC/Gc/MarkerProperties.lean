import UwUGC.Object.Heap
import UwUGC.Mm.Compaction
import UwUGC.Mm.PageRanges
import UwUGC.Gc.Marker

/-! Marking computes reachability. The marker follows the depth-first search of
the object graph, with two or three of its steps for each step of the search. -/

set_option autoImplicit false

namespace UwUGC.Gc

open PageTable Mm

namespace Marking

theorem mark_fresh {markTrueBit : Bit} {memory : Memory} {obj : Nat}
    (unmarked : (memory.metadata obj).isMarked ≠ markTrueBit) (marking : Marking) :
    marking.mark markTrueBit memory obj =
      (memory.setMarked obj markTrueBit, { marking with inHand := some (.marked obj) }) := by
  have accepted := Metadata.tryUpdate_accepted (memory.header obj) (setMark markTrueBit)
    { memory.metadata obj with isMarked := markTrueBit } (if_neg unmarked) rfl
  simp only [mark, Memory.tryUpdate, accepted.1, Memory.setMarked]

theorem mark_seen {markTrueBit : Bit} {memory : Memory} {obj : Nat}
    (marked : (memory.metadata obj).isMarked = markTrueBit) (marking : Marking) :
    marking.mark markTrueBit memory obj = (memory, { marking with inHand := none }) := by
  have refused := Metadata.tryUpdate_refused (memory.header obj) (setMark markTrueBit) (if_pos marked)
  simp only [mark, Memory.tryUpdate, refused]

variable {Types : Type} {manager : TypeManager Types} {types : Types} {heap : HeapInfo} {bit : Bit}

/-- What a scan does to the marker, given what the allocator served. -/
def scanned (heap : HeapInfo) (marking : Marking) (obj size ptr : Nat) (pointed : List Nat)
    (moveContext : Context) (pageTable : PageTable) : Marking :=
  { marking with
    markStack := pointed.reverse ++ marking.markStack
    inHand := none
    pageTable := pageTable
    moveContext := moveContext
    registry := marking.registry.insert { src := obj - heap.start, dest := ptr - heap.toSpace, size := size } }

theorem scan_eq_ok {memory : Memory} {marking next : Marking} {obj : Nat} :
    marking.scan manager types heap memory obj = .ok next ↔
      ∃ size ptr idx moveContext pageTable pointed, manager.getSize types memory obj = .ok size ∧
        marking.moveContext.allocFromPageTable marking.pageTable size =
          .ok (some (ptr, idx), moveContext, pageTable) ∧
        heap.start ≤ obj ∧ heap.toSpace ≤ ptr ∧ manager.iterateGcPointers types memory obj = .ok pointed ∧
        next = scanned heap marking obj size ptr pointed moveContext pageTable := by
  simp only [scan, scanned, bind_eq_ok, checkedSub_eq_ok, unwrap_eq_ok, Prod.exists, Except.ok.injEq]
  constructor
  · rintro ⟨size, sized, _, context, table, served, ptr, idx, rfl, _, ⟨below, rfl⟩, _, ⟨above, rfl⟩,
      pointed, walked, rfl⟩
    exact ⟨size, ptr, idx, context, table, pointed, sized, served, below, above, walked, rfl⟩
  · rintro ⟨size, ptr, idx, context, table, pointed, sized, served, below, above, walked, rfl⟩
    exact ⟨size, sized, _, context, table, served, ptr, idx, rfl, _, ⟨below, rfl⟩, _, ⟨above, rfl⟩,
      pointed, walked, rfl⟩

variable {memory : Memory} {marking : Marking} {obj : Nat} {rest : List Nat}

theorem step_pop (idle : marking.inHand = none) (stack : marking.markStack = obj :: rest) :
    step manager types heap bit memory marking =
      .ok (some (memory, { marking with markStack := rest, inHand := some (.popped obj) })) := by
  simp only [step, idle, stack]

theorem step_root (idle : marking.inHand = none) (stack : marking.markStack = [])
    (roots : marking.roots = obj :: rest) :
    step manager types heap bit memory marking =
      .ok (some (memory, { marking with roots := rest, markStack := [obj] })) := by
  simp only [step, idle, stack, roots]

theorem step_done (idle : marking.inHand = none) (stack : marking.markStack = []) (roots : marking.roots = []) :
    step manager types heap bit memory marking = .ok none := by
  simp only [step, idle, stack, roots]

theorem step_seen (popped : marking.inHand = some (.popped obj)) (marked : (memory.metadata obj).isMarked = bit) :
    step manager types heap bit memory marking = .ok (some (memory, { marking with inHand := none })) := by
  simp only [step, popped, mark_seen marked]

theorem step_fresh (popped : marking.inHand = some (.popped obj)) (unmarked : (memory.metadata obj).isMarked ≠ bit) :
    step manager types heap bit memory marking =
      .ok (some (memory.setMarked obj bit, { marking with inHand := some (.marked obj) })) := by
  simp only [step, popped, mark_fresh unmarked]

theorem step_scan {next : Marking} (marked : marking.inHand = some (.marked obj))
    (scanned : marking.scan manager types heap memory obj = .ok next) :
    step manager types heap bit memory marking = .ok (some (memory, next)) := by
  simp only [step, marked, scanned, bind, Except.bind]

/-- What a step can be. -/
theorem step_cases {later : Memory} {next : Marking}
    (taken : step manager types heap bit memory marking = .ok (some (later, next))) :
    (∃ obj, marking.inHand = some (.popped obj) ∧ (later, next) = marking.mark bit memory obj) ∨
    (∃ obj, marking.inHand = some (.marked obj) ∧ later = memory ∧
      marking.scan manager types heap memory obj = .ok next) ∨
    (∃ obj rest, marking.inHand = none ∧ marking.markStack = obj :: rest ∧ later = memory ∧
      next = { marking with markStack := rest, inHand := some (.popped obj) }) ∨
    (∃ root rest, marking.inHand = none ∧ marking.markStack = [] ∧ marking.roots = root :: rest ∧
      later = memory ∧ next = { marking with roots := rest, markStack := [root] }) := by
  unfold step at taken
  split at taken
  · next obj popped =>
      simp only [Except.ok.injEq, Option.some.injEq] at taken
      exact .inl ⟨obj, popped, taken.symm⟩
  · next obj marked =>
      simp only [bind_eq_ok, Except.ok.injEq, Option.some.injEq, Prod.mk.injEq] at taken
      obtain ⟨_, scanned, rfl, rfl⟩ := taken
      exact .inr (.inl ⟨obj, marked, rfl, scanned⟩)
  · next idle =>
      split at taken
      · next obj rest stack =>
          cases taken
          exact .inr (.inr (.inl ⟨obj, rest, idle, stack, rfl, rfl⟩))
      · next stack =>
          split at taken
          · next root rest roots =>
              cases taken
              exact .inr (.inr (.inr ⟨root, rest, idle, stack, roots, rfl, rfl⟩))
          · cases taken

theorem step_eq_none (ended : step manager types heap bit memory marking = .ok none) :
    marking.inHand = none ∧ marking.markStack = [] ∧ marking.roots = [] := by
  unfold step at ended
  split at ended
  · cases ended
  · simp only [bind_eq_ok] at ended
    obtain ⟨_, _, ended⟩ := ended
    cases ended
  · next idle =>
      split at ended
      · cases ended
      · next stack =>
          split at ended
          · cases ended
          · next roots => exact ⟨idle, stack, roots⟩

/-- Steps of the marker that nothing else runs between. -/
def Steps (manager : TypeManager Types) (types : Types) (heap : HeapInfo) (bit : Bit) :
    Memory × Marking → Memory × Marking → Prop :=
  Relation.ReflTransGen fun before next => step manager types heap bit before.1 before.2 = .ok (some next)

/-- A marker that comes to its end does so whenever it has fuel enough. -/
theorem Steps.finish {before final : Memory × Marking} (ran : Steps manager types heap bit before final)
    (ended : step manager types heap bit final.1 final.2 = .ok none) :
    ∃ enough, ∀ fuel ≥ enough,
      Marking.finish manager types heap bit fuel before.1 before.2 = .ok (some final) := by
  induction ran using Relation.ReflTransGen.head_induction_on with
  | refl =>
      refine ⟨1, ?_⟩
      intro fuel enough
      obtain ⟨fuel, rfl⟩ := Nat.exists_eq_add_of_le' enough
      simp [Marking.finish, ended, bind, Except.bind]
  | head taken _ ih =>
      obtain ⟨most, later⟩ := ih
      refine ⟨most + 1, ?_⟩
      intro fuel enough
      obtain ⟨fuel, rfl⟩ := Nat.exists_eq_add_of_le' (Nat.le_trans (Nat.le_add_left 1 most) enough)
      simp only [Marking.finish, taken, bind, Except.bind]
      exact later fuel (by omega)

end Marking

namespace MarkerInput

variable {Types : Type}

def rooted (input : MarkerInput Types) : List Nat := input.roots.flatMap RootSet.iterPointers

def sizeOf (manager : TypeManager Types) (input : MarkerInput Types) : Nat → Nat :=
  manager.sizeOf input.types input.memory

def children (manager : TypeManager Types) (input : MarkerInput Types) : Nat → List Nat :=
  manager.children input.types input.memory

def Reachable (manager : TypeManager Types) (input : MarkerInput Types) : Nat → Prop :=
  manager.Reachable input.types input.memory input.roots

/-- The order in which a depth-first search from the roots visits the objects. -/
def Visits (manager : TypeManager Types) (input : MarkerInput Types) (order : List Nat) : Prop :=
  GraphSearch.Visits (input.children manager) input.rooted order

/-- A finite heap whose reachable objects are unmarked, and a to-space that takes them. -/
structure WellFormed (manager : TypeManager Types) (input : MarkerInput Types) (objects : List Nat) : Prop where
  heap : manager.Heap input.types input.memory objects
  roots : ∀ ptr ∈ input.rooted, ptr ∈ objects
  inHeap : ∀ obj ∈ objects, input.heap.start ≤ obj
  unmarked : ∀ obj, input.Reachable manager obj → (input.memory.metadata obj).isMarked ≠ input.markTrueBit
  multiples : ∀ obj ∈ objects, input.sizeOf manager obj % 8 = 0
  length : input.pageTable.pageTable.length = input.pageTable.nrPages
  base : input.pageTable.baseAddr = input.heap.toSpace
  nonnull : input.heap.toSpace ≠ 0
  room : ∀ order, input.Visits manager order →
    (Demand.ofSizes (order.map (input.sizeOf manager))).pages ≤ input.pageTable.nrPages

end MarkerInput

/-- One record for each object in the order visited, with destinations that the table holds. -/
structure Recorded {Types : Type} (manager : TypeManager Types) (input : MarkerInput Types) (order : List Nat)
    (table : PageTable) (registry : RegistryBuilder) : Prop where
  sources : registry.data.recordsSortedBySrc.map (fun record => (record.src, record.size)) =
    order.map fun obj => (obj - input.heap.start, input.sizeOf manager obj)
  sameRecords : registry.data.recordsSortedByDest = registry.data.recordsSortedBySrc
  held : ∀ record ∈ registry.data.recordsSortedBySrc,
    table.Holds ⟨input.heap.toSpace + record.dest, record.size⟩
  apart : registry.data.recordsSortedBySrc.Pairwise fun left right =>
    left.getDestRange.Separate right.getDestRange

theorem Recorded.insert {Types : Type} {manager : TypeManager Types} {input : MarkerInput Types}
    {visited : List Nat} {table final : PageTable} {registry : RegistryBuilder}
    (recorded : Recorded manager input visited table registry) (placed : table.Placed)
    (base : table.baseAddr = input.heap.toSpace) {obj ptr idx : Nat} {buffer : Option Nat} {fits : FlexPage → Prop}
    (step : Allocates (sizeClass (input.sizeOf manager obj)) buffer fits (input.sizeOf manager obj) table
      (some (ptr, idx)) final) :
    input.heap.toSpace ≤ ptr ∧ Recorded manager input (visited ++ [obj]) final
      (registry.insert ⟨obj - input.heap.start, ptr - input.heap.toSpace, input.sizeOf manager obj⟩) := by
  have positive := sizeClass_nrPages_pos (input.sizeOf manager obj)
  obtain ⟨page, found, inside⟩ := step.served placed positive
  have above : input.heap.toSpace ≤ ptr := by
    have start := (step.placed placed positive).start found
    rw [step.frame.1, base] at start
    change page.start ≤ ptr ∧ _ at inside
    omega
  have back : input.heap.toSpace + (ptr - input.heap.toSpace) = ptr := Nat.add_sub_cancel' above
  refine ⟨above, ?_, ?_, ?_, ?_⟩
  · simp only [RegistryBuilder.insert, List.map_append, recorded.sources, List.map_cons, List.map_nil]
  · simp only [RegistryBuilder.insert, recorded.sameRecords]
  · intro record member
    rcases List.mem_append.mp member with old | new
    · exact (recorded.held record old).keeps step placed positive
    · rw [List.mem_singleton.mp new, back]
      exact ⟨idx, page, found, inside⟩
  · refine List.pairwise_append.mpr ⟨recorded.apart, List.pairwise_singleton _ _, ?_⟩
    intro old member record new
    rw [List.mem_singleton.mp new]
    have separate := step.served_apart placed positive (recorded.held old member)
    rw [← back] at separate
    exact Span.Separate.shift.mp separate

/-- The marker in memory and registry as the search has it. -/
structure Follows {Types : Type} (manager : TypeManager Types) (input : MarkerInput Types) (objects : List Nat)
    (search : GraphSearch Nat) (memory : Memory) (marking : Marking) : Prop where
  inHand : marking.inHand = none
  roots : marking.roots = search.pending
  stack : marking.markStack = search.stack
  bodies : manager.SameBodies input.types input.memory memory objects
  marked : ∀ obj ∈ search.visited,
    memory.metadata obj = { input.memory.metadata obj with isMarked := input.markTrueBit }
  unmarked : ∀ address, address ∉ search.visited → memory address = input.memory address
  meets : Meets marking.moveContext marking.pageTable (Demand.ofSizes (search.visited.map (input.sizeOf manager)))
  base : marking.pageTable.baseAddr = input.heap.toSpace
  nrPages : marking.pageTable.nrPages = input.pageTable.nrPages
  recorded : Recorded manager input search.visited marking.pageTable marking.registry

namespace Follows

variable {Types : Type} {manager : TypeManager Types} {input : MarkerInput Types} {objects : List Nat}
  {search next : GraphSearch Nat} {memory : Memory} {marking : Marking}

theorem start (length : input.pageTable.pageTable.length = input.pageTable.nrPages)
    (base : input.pageTable.baseAddr = input.heap.toSpace) :
    Follows manager input objects (.start input.rooted) input.memory
      (Marking.start .new input.roots input.pageTable .new) where
  inHand := rfl
  roots := rfl
  stack := rfl
  bodies := fun _ _ => ⟨rfl, fun _ _ => rfl⟩
  marked := by simp [GraphSearch.start]
  unmarked := fun _ _ => rfl
  meets := Meets.clear length
  base := base
  nrPages := rfl
  recorded := ⟨rfl, rfl, by simp [Marking.start, RegistryBuilder.new], .nil⟩

theorem metadata_eq (follows : Follows manager input objects search memory marking)
    (wellFormed : input.WellFormed manager objects) (visited : ∀ obj ∈ search.visited, obj ∈ objects) {obj : Nat}
    (member : obj ∈ objects) (fresh : obj ∉ search.visited) :
    memory.metadata obj = input.memory.metadata obj := by
  refine Memory.metadata_congr (follows.unmarked obj fresh) (follows.unmarked (obj + 8) ?_)
  intro seen
  exact wellFormed.heap.header_apart (visited _ seen) member rfl

theorem visit (follows : Follows manager input objects search memory marking)
    (wellFormed : input.WellFormed manager objects)
    (sound : search.Sound (input.children manager) input.rooted) {obj : Nat} {rest : List Nat}
    (stack : search.stack = obj :: rest) (fresh : obj ∉ search.visited)
    (room : (Demand.ofSizes ((search.visited ++ [obj]).map (input.sizeOf manager))).pages ≤
      input.pageTable.nrPages) :
    ∃ memory' marking', Marking.Steps manager input.types input.heap input.markTrueBit (memory, marking)
        (memory', marking') ∧
      Follows manager input objects
        { search with
          stack := (input.children manager obj).reverse ++ rest
          visited := search.visited ++ [obj] } memory' marking' := by
  have inObjects (other : Nat) (reachable : input.Reachable manager other) : other ∈ objects :=
    wellFormed.heap.reachable_mem wellFormed.roots reachable
  have reachable : input.Reachable manager obj := sound.stack obj (by simp [stack])
  have member := inObjects obj reachable
  have visited (other : Nat) (seen : other ∈ search.visited) : other ∈ objects :=
    inObjects other (sound.visited other seen)
  have metadata := follows.metadata_eq wellFormed visited member fresh
  have unmarked : (memory.metadata obj).isMarked ≠ input.markTrueBit := by
    rw [metadata]
    exact wellFormed.unmarked obj reachable
  have popped := follows.stack.trans stack
  -- Marking changes no body, so the scan reads what was there at the start.
  have heap := wellFormed.heap.same_heap follows.bodies
  have bodies : manager.SameBodies input.types input.memory (memory.setMarked obj input.markTrueBit) objects := by
    intro other otherMember
    have body := heap.setMarked member input.markTrueBit other otherMember
    rw [wellFormed.heap.same_size follows.bodies otherMember] at body
    exact (follows.bodies other otherMember).trans body
  obtain ⟨size, slots, shape⟩ := wellFormed.heap.shaped obj member
  have shape' := bodies.shape member shape
  have sized : input.sizeOf manager obj = size := shape.sizeOf_eq
  have pointed : manager.iterateGcPointers input.types (memory.setMarked obj input.markTrueBit) obj =
      .ok (input.children manager obj) := by
    rw [shape'.iterate_eq]
    have same := wellFormed.heap.same_children bodies member
    rw [shape'.children_eq] at same
    rw [same]
    rfl
  obtain ⟨result, final, step⟩ :=
    follows.meets.fits.allocates follows.meets.placed.indexed (follows.base ▸ wellFormed.nonnull) (input.sizeOf manager obj)
  have served := (Context.allocFromPageTable_eq_ok follows.meets.placed.indexed follows.meets.fits).mpr
    ⟨wellFormed.multiples obj member, step, rfl⟩
  have demand : (Demand.ofSizes ((search.visited ++ [obj]).map (input.sizeOf manager))) =
      (Demand.ofSizes (search.visited.map (input.sizeOf manager))).add (input.sizeOf manager obj) := by
    simp only [Demand.ofSizes, List.map_append, List.map_cons, List.map_nil, List.foldl_append, List.foldl_cons,
      List.foldl_nil]
  rw [demand] at room
  rcases (follows.meets.step served).1 with ⟨_, beyond⟩ | ⟨⟨ptr, idx⟩, rfl, _, meets⟩
  · rw [follows.nrPages] at beyond
    omega
  · obtain ⟨above, recorded⟩ := follows.recorded.insert follows.meets.placed follows.base step
    have scans : Marking.scan manager input.types input.heap (memory.setMarked obj input.markTrueBit)
        { marking with markStack := rest, inHand := some (.marked obj) } obj =
        .ok (.scanned input.heap { marking with markStack := rest, inHand := some (.marked obj) } obj
          (input.sizeOf manager obj) ptr (input.children manager obj)
          (marking.moveContext.after (input.sizeOf manager obj) (some (ptr, idx))) final) :=
      Marking.scan_eq_ok.mpr ⟨_, ptr, idx, _, final, _, sized ▸ shape'.getSize_eq, served,
        wellFormed.inHeap obj member, above, pointed, rfl⟩
    refine ⟨_, _, .head (Marking.step_pop follows.inHand popped)
      (.head (Marking.step_fresh rfl unmarked) (.single (Marking.step_scan rfl scans))), ?_⟩
    constructor
    case inHand => rfl
    case roots => exact follows.roots
    case stack => rfl
    case bodies => exact bodies
    case marked =>
      intro other seen
      rcases List.mem_append.mp seen with old | new
      · have different : other ≠ obj := fun same => fresh (same ▸ old)
        rw [← follows.marked other old]
        refine Memory.metadata_congr (Memory.setMarked_of_ne _ _ different) (Memory.setMarked_of_ne _ _ ?_)
        exact (wellFormed.heap.header_apart member (visited other old)).symm
      · rw [List.mem_singleton.mp new, Memory.metadata_setMarked, metadata]
    case unmarked =>
      intro address outside
      rw [List.mem_append, not_or, List.mem_singleton] at outside
      exact (Memory.setMarked_of_ne _ _ outside.2).trans (follows.unmarked address outside.1)
    case meets =>
      rw [demand]
      exact meets
    case base => exact step.frame.1.trans follows.base
    case nrPages => exact step.frame.2.1.trans follows.nrPages
    case recorded => exact recorded

theorem step (follows : Follows manager input objects search memory marking)
    (wellFormed : input.WellFormed manager objects)
    (sound : search.Sound (input.children manager) input.rooted)
    (taken : search.step (input.children manager) = some next)
    (room : (Demand.ofSizes (next.visited.map (input.sizeOf manager))).pages ≤ input.pageTable.nrPages) :
    ∃ memory' marking', Marking.Steps manager input.types input.heap input.markTrueBit (memory, marking)
        (memory', marking') ∧
      Follows manager input objects next memory' marking' := by
  rcases GraphSearch.step_cases taken with ⟨obj, rest, stack, seen, rfl⟩ | ⟨obj, rest, stack, fresh, rfl⟩ |
    ⟨root, later, stack, pending, rfl⟩
  · have marked : (memory.metadata obj).isMarked = input.markTrueBit := by
      rw [follows.marked obj seen]
    refine ⟨memory, { marking with markStack := rest, inHand := none }, ?_,
      { follows with inHand := rfl, stack := rfl }⟩
    exact .head (Marking.step_pop follows.inHand (follows.stack.trans stack)) (.single (Marking.step_seen rfl marked))
  · exact follows.visit wellFormed sound stack fresh room
  · refine ⟨memory, { marking with roots := later, markStack := [root] }, ?_,
      { follows with roots := rfl, stack := rfl }⟩
    exact .single (Marking.step_root follows.inHand (follows.stack.trans stack) (follows.roots.trans pending))

theorem steps (follows : Follows manager input objects search memory marking)
    (wellFormed : input.WellFormed manager objects)
    (sound : search.Sound (input.children manager) input.rooted)
    (ran : GraphSearch.Steps (input.children manager) search next)
    (room : (Demand.ofSizes (next.visited.map (input.sizeOf manager))).pages ≤ input.pageTable.nrPages) :
    ∃ memory' marking', Marking.Steps manager input.types input.heap input.markTrueBit (memory, marking)
        (memory', marking') ∧
      Follows manager input objects next memory' marking' := by
  induction ran with
  | refl => exact ⟨memory, marking, .refl, follows⟩
  | @tail middle final before taken ih =>
      have fewer : (Demand.ofSizes (middle.visited.map (input.sizeOf manager))).pages ≤
          (Demand.ofSizes (final.visited.map (input.sizeOf manager))).pages := by
        obtain ⟨later, split⟩ := GraphSearch.Steps.visited_prefix (.single taken)
        rw [← split, List.map_append, Demand.ofSizes, Demand.ofSizes, List.foldl_append]
        exact Demand.pages_le_foldl _ _
      obtain ⟨memory', marking', reached, there⟩ := ih (Nat.le_trans fewer room)
      obtain ⟨last, done, further, follows'⟩ := there.step wellFormed (sound.steps before) taken room
      exact ⟨last, done, reached.trans further, follows'⟩

end Follows

/-- What marking leaves behind: an empty stack, the marks of the reachable objects and of
nothing else, and one record for each, from separate sources to separate
destinations in the pages of to-space; and the registry can be used again. -/
structure MarkerOutput.Exact {Types : Type} (manager : TypeManager Types) (input : MarkerInput Types)
    (output : MarkerOutput) : Prop where
  emptied : output.marker = .new
  marked : ∀ obj, input.Reachable manager obj →
    output.memory.metadata obj = { input.memory.metadata obj with isMarked := input.markTrueBit }
  unmarked : ∀ address, ¬ input.Reachable manager address → output.memory address = input.memory address
  recorded : ∃ order, order.Nodup ∧ (∀ obj, obj ∈ order ↔ input.Reachable manager obj) ∧
    Recorded manager input order output.pageTable output.registry
  sources : output.registry.data.recordsSortedBySrc.Pairwise fun left right =>
    left.getSrcRange.Separate right.getSrcRange
  reusable : output.registry.freeze.unfreeze = .new

section Exact

variable {Types : Type} {manager : TypeManager Types} {input : MarkerInput Types} {objects : List Nat}

theorem sources_apart {types : Types} {memory : Memory} {start : Nat} {records : List RelocationRecord} {order : List Nat}
    (heap : manager.Heap types memory objects)
    (sources : records.map (fun record => (record.src, record.size)) =
      order.map fun obj => (obj - start, manager.sizeOf types memory obj))
    (nodup : order.Nodup) (members : ∀ obj ∈ order, obj ∈ objects) (above : ∀ obj ∈ order, start ≤ obj) :
    records.Pairwise fun left right => left.getSrcRange.Separate right.getSrcRange := by
  have apart : (order.map fun obj => (obj - start, manager.sizeOf types memory obj)).Pairwise
      fun left right => (Span.mk left.1 left.2).Separate ⟨right.1, right.2⟩ := by
    rw [List.pairwise_map]
    refine nodup.imp_of_mem ?_
    intro left right leftMember rightMember different
    have separate := heap.separate left (members left leftMember) right (members right rightMember) different
    apply Span.Separate.shift.mp
    rw [Nat.add_sub_cancel' (above left leftMember), Nat.add_sub_cancel' (above right rightMember)]
    exact separate
  rw [← sources, List.pairwise_map] at apart
  exact apart

theorem Recorded.sources_apart {order : List Nat} {table : PageTable} {registry : RegistryBuilder}
    (recorded : Recorded manager input order table registry) (wellFormed : input.WellFormed manager objects)
    (nodup : order.Nodup) (members : ∀ obj ∈ order, obj ∈ objects) :
    registry.data.recordsSortedBySrc.Pairwise fun left right => left.getSrcRange.Separate right.getSrcRange :=
  Gc.sources_apart wellFormed.heap recorded.sources nodup members
    fun obj member => wellFormed.inHeap obj (members obj member)

theorem MarkerInput.WellFormed.visits (wellFormed : input.WellFormed manager objects) :
    ∃ order, input.Visits manager order := by
  apply GraphSearch.visits_exists
  intro obj reachable
  exact List.mem_toFinset.mpr (wellFormed.heap.reachable_mem wellFormed.roots reachable)

/-- The marker ends in the state of the finished search. -/
theorem Marking.steps_exist (wellFormed : input.WellFormed manager objects) {order : List Nat}
    (visits : input.Visits manager order) :
    ∃ search memory marking,
      Steps manager input.types input.heap input.markTrueBit
        (input.memory, start .new input.roots input.pageTable .new) (memory, marking) ∧
      step manager input.types input.heap input.markTrueBit memory marking = .ok none ∧
      search.visited = order ∧ Follows manager input objects search memory marking ∧ marking.markStack = [] := by
  have room := wellFormed.room order visits
  obtain ⟨final, ran, ended, rfl⟩ := visits
  obtain ⟨memory, marking, steps, follows⟩ :=
    (Follows.start wellFormed.length wellFormed.base).steps wellFormed (.start _ _) ran room
  obtain ⟨stack, pending⟩ := GraphSearch.step_eq_none.mp ended
  exact ⟨final, memory, marking, steps,
    step_done follows.inHand (follows.stack.trans stack) (follows.roots.trans pending), rfl, follows,
    follows.stack.trans stack⟩

/-- One cycle of marking. -/
theorem Marker.start_exact (wellFormed : input.WellFormed manager objects) :
    ∃ output, output.Exact manager input ∧
      ∃ enough, ∀ fuel ≥ enough, Marker.start manager .new .new input fuel = .ok (some output) := by
  obtain ⟨order, visits⟩ := wellFormed.visits
  obtain ⟨nodup, reachable⟩ := visits.exact
  obtain ⟨search, memory, marking, steps, ended, rfl, follows, emptied⟩ :=
    Marking.steps_exist wellFormed visits
  obtain ⟨enough, finished⟩ := steps.finish ended
  have members (obj : Nat) (visited : obj ∈ search.visited) : obj ∈ objects :=
    wellFormed.heap.reachable_mem wellFormed.roots ((reachable obj).mp visited)
  refine ⟨⟨memory, ⟨marking.markStack⟩, marking.registry, marking.pageTable⟩, ?_, enough, ?_⟩
  · constructor
    case emptied => simp only [emptied, Marker.new]
    case marked => exact fun obj live => follows.marked obj ((reachable obj).mpr live)
    case unmarked => exact fun address dead => follows.unmarked address fun seen => dead ((reachable address).mp seen)
    case recorded => exact ⟨search.visited, nodup, reachable, follows.recorded⟩
    case sources => exact follows.recorded.sources_apart wellFormed nodup members
    case reusable => rfl
  · intro fuel plenty
    simp only [Marker.start, finished fuel plenty, bind, Except.bind]

/-- Every cycle marks exactly what is reachable and ends, with the marker and the registry
that the cycle before it has left. -/
theorem Marker.startEach_exact {inputs : List (MarkerInput Types)}
    (wellFormed : ∀ input ∈ inputs, ∃ objects, input.WellFormed manager objects) :
    ∃ outputs, List.Forall₂ (fun input output => output.Exact manager input) inputs outputs ∧
      ∃ enough, ∀ fuel ≥ enough,
        Marker.startEach manager .new .new (inputs.map fun input => (input, fuel)) = .ok (some outputs) := by
  induction inputs with
  | nil => exact ⟨[], .nil, 0, fun _ _ => rfl⟩
  | cons input rest ih =>
      obtain ⟨objects, first⟩ := wellFormed input List.mem_cons_self
      obtain ⟨output, exact, most, starts⟩ := Marker.start_exact first
      obtain ⟨outputs, exacts, more, ran⟩ := ih fun later member => wellFormed later (List.mem_cons_of_mem _ member)
      refine ⟨output :: outputs, .cons exact exacts, max most more, ?_⟩
      intro fuel enough
      have started := starts fuel (Nat.le_trans (Nat.le_max_left _ _) enough)
      have later := ran fuel (Nat.le_trans (Nat.le_max_right _ _) enough)
      rw [List.map_cons, Marker.startEach, started]
      simp only [bind, Except.bind, exact.emptied, exact.reusable, later]

end Exact

/-- A pair of pointers, to a buffer in a medium page and to the pair itself, and an object of plain
data that nothing points to. -/
def linked (markTrueBit : Bit) : MarkerInput Unit where
  types := ()
  memory := Function.update (Function.update
    (((Memory.writeHeader (fun _ => 0) 4398046511104 (.new ⟨markTrueBit.not, false, .notPlainOldData 2⟩)).writeHeader
      4398046511136 (.new ⟨markTrueBit.not, false, .plainOldData 8⟩)).writeHeader
      4398048608256 (.new ⟨markTrueBit.not, false, .plainOldData 262144⟩))
    4398046511120 4398048608256) 4398046511128 4398046511104
  roots := [[some 4398046511104, none]]
  pageTable := PageTable.new 2097152 8
  heap := ⟨4398046511104, 5, 2097152⟩
  markTrueBit := markTrueBit

def linkedObjects : List Nat := [4398046511104, 4398046511136, 4398048608256]

structure LinkedShapes (markTrueBit : Bit) : Prop where
  pair : TypeManager.pointerArrays.Shape () (linked markTrueBit).memory 4398046511104 32 [0, 8]
  data : TypeManager.pointerArrays.Shape () (linked markTrueBit).memory 4398046511136 24 []
  buffer : TypeManager.pointerArrays.Shape () (linked markTrueBit).memory 4398048608256 262160 []

theorem linked_shapes (markTrueBit : Bit) : LinkedShapes markTrueBit where
  pair := by
    have payload : ((linked markTrueBit).memory.metadata 4398046511104).payload = .notPlainOldData 2 := by
      cases markTrueBit <;> decide +kernel
    exact .typed payload (TypeManager.pointerArrays_lawful 2) rfl rfl
  data := by
    have payload : ((linked markTrueBit).memory.metadata 4398046511136).payload = .plainOldData 8 := by
      cases markTrueBit <;> decide +kernel
    exact .plain payload
  buffer := by
    have payload : ((linked markTrueBit).memory.metadata 4398048608256).payload = .plainOldData 262144 := by
      cases markTrueBit <;> decide +kernel
    exact .plain payload

theorem linked_unmarked (markTrueBit : Bit) :
    ∀ obj ∈ linkedObjects, ((linked markTrueBit).memory.metadata obj).isMarked ≠ markTrueBit := by
  cases markTrueBit <;> decide +kernel

theorem linked_children (markTrueBit : Bit) :
    linkedObjects.map ((linked markTrueBit).children TypeManager.pointerArrays) =
      [[4398048608256, 4398046511104], [], []] := by
  cases markTrueBit <;> decide +kernel

theorem linked_sizes (markTrueBit : Bit) :
    linkedObjects.map ((linked markTrueBit).sizeOf TypeManager.pointerArrays) = [32, 24, 262160] := by
  cases markTrueBit <;> decide +kernel

theorem linked_heap (markTrueBit : Bit) : TypeManager.pointerArrays.Heap () (linked markTrueBit).memory linkedObjects := by
  obtain ⟨pair, data, buffer⟩ := linked_shapes markTrueBit
  constructor
  case shaped =>
    simp only [linkedObjects, List.forall_mem_cons]
    exact ⟨⟨_, _, pair⟩, ⟨_, _, data⟩, ⟨_, _, buffer⟩, List.forall_mem_nil _⟩
  case closed =>
    have inside : ∀ pointed ∈ linkedObjects.map ((linked markTrueBit).children TypeManager.pointerArrays),
        ∀ child ∈ pointed, child ∈ linkedObjects := by
      rw [linked_children]
      decide
    exact fun obj member => inside _ (List.mem_map_of_mem member)
  case separate =>
    simp [linkedObjects, pair.range_eq, data.range_eq, buffer.range_eq, Span.Separate, Span.stop]

/-- The search comes to the pair, and from it to the buffer. -/
theorem linked_visits (markTrueBit : Bit) :
    (linked markTrueBit).Visits TypeManager.pointerArrays [4398046511104, 4398048608256] := by
  have pointed := linked_children markTrueBit
  simp only [linkedObjects, List.map_cons, List.map_nil, List.cons.injEq, and_true] at pointed
  obtain ⟨pair, _, buffer⟩ := pointed
  refine ⟨⟨[], [], [4398046511104, 4398048608256]⟩, ?_, rfl, rfl⟩
  refine .head (b := ⟨[], [4398046511104], []⟩) rfl ?_
  refine .head (b := ⟨[], [4398046511104, 4398048608256], [4398046511104]⟩) ?_ ?_
  · simp [GraphSearch.step, pair]
  refine .head (b := ⟨[], [4398048608256], [4398046511104]⟩) ?_ (.head ?_ .refl)
  · simp [GraphSearch.step]
  · simp [GraphSearch.step, buffer]

theorem linked_wellFormed (markTrueBit : Bit) :
    (linked markTrueBit).WellFormed TypeManager.pointerArrays linkedObjects where
  heap := linked_heap markTrueBit
  roots := by simp [MarkerInput.rooted, linked, RootSet.iterPointers, linkedObjects]
  inHeap := by simp [linked, linkedObjects]
  unmarked := by
    intro obj reachable
    have visited := ((linked_visits markTrueBit).exact.2 obj).mpr reachable
    refine linked_unmarked markTrueBit obj ?_
    simp only [List.mem_cons, List.not_mem_nil, or_false] at visited
    rcases visited with rfl | rfl <;> simp [linkedObjects]
  multiples := by
    have each : ∀ size ∈ linkedObjects.map ((linked markTrueBit).sizeOf TypeManager.pointerArrays), size % 8 = 0 := by
      rw [linked_sizes]
      decide
    exact fun obj member => each _ (List.mem_map_of_mem member)
  length := rfl
  base := rfl
  nonnull := by simp [linked]
  room := by
    intro order visits
    have sizes := linked_sizes markTrueBit
    simp only [linkedObjects, List.map_cons, List.map_nil, List.cons.injEq, and_true] at sizes
    have pages : (Demand.ofSizes [32, 262160]).pages ≤ 8 := by decide +kernel
    rw [visits.unique (linked_visits markTrueBit), List.map_cons, List.map_cons, sizes.1, sizes.2.2]
    exact pages

/-- Two cycles over them, with the meaning of the bit flipped in between. -/
theorem startEach_exact_linked :
    ∃ outputs, List.Forall₂ (fun input output => MarkerOutput.Exact TypeManager.pointerArrays input output)
        [linked .bit1, linked .bit0] outputs ∧
      ∃ enough, ∀ fuel ≥ enough, Marker.startEach TypeManager.pointerArrays .new .new
        ([linked .bit1, linked .bit0].map fun input => (input, fuel)) = .ok (some outputs) := by
  refine Marker.startEach_exact ?_
  intro input member
  rcases List.mem_cons.mp member with first | second
  · exact ⟨linkedObjects, first ▸ linked_wellFormed .bit1⟩
  · exact ⟨linkedObjects, List.mem_singleton.mp second ▸ linked_wellFormed .bit0⟩

end UwUGC.Gc
