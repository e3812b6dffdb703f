import UwUGC.State.ConcurrentMarking
import UwUGC.Gc.CyclePreservation
import UwUGC.Gc.MarkerPlaces
import UwUGC.Gc.PageDonations

/-! Marking beside mutators loses an object where one is hidden from the marker, or is put in
a page that step 3 does not donate or cannot. -/

set_option autoImplicit false

namespace UwUGC

open Gc

namespace State.System

variable {Types Request Thread : Type}

/-- Behind the store the marker comes to every object that it came to before, unless the
mutators do not reach it any more. -/
def HidesNothing (manager : TypeManager Types) (state : System Types Thread) (bit : Bit) (marking : Marking)
    (address value : Nat) : Prop :=
  ∀ obj, (state.withMemory (Function.update state.memory address value)).Reaches manager obj →
    (marking.colours manager state.shared.types bit state.memory).Covered obj →
    (marking.colours manager state.shared.types bit (Function.update state.memory address value)).Covered obj

/-- No store hides an object from the marker. Every allocation is served from a page that was opened
since step 1 and has its place in the table of the marker, and the marker leaves such pages theirs. -/
structure Harmless (manager : TypeManager Types) (state : System Types Thread) (action : Action Request Thread) : Prop where
  store : ∀ {heap bit marking thread context slot field from? address value},
    state.phase = .marking heap bit marking → action = .mutator thread (.store slot field from?) →
    state.shared.contexts.own thread = some context → state.field manager context slot field = some address →
    held context from? = some value → state.HidesNothing manager bit marking address value
  alloc : ∀ {heap bit marking thread context ty extraBytes init slot size ptr page mmContext mm},
    state.phase = .marking heap bit marking → action = .mutator thread (.alloc ty extraBytes init slot) →
    state.shared.contexts.own thread = some context →
    (state.mutator context).requestedBytes manager ty extraBytes = .ok size →
    context.mmContext.allocFromPageTable state.shared.mm size = .ok (some (ptr, page), mmContext, mm) →
    heap.usedEndPage ≤ page ∧ marking.pageTable.Lands state.shared.mm page
  mark : ∀ {heap bit marking obj size place moveContext pageTable},
    state.phase = .marking heap bit marking → action = .collector .mark → marking.inHand = some (.marked obj) →
    manager.getSize state.shared.types state.memory obj = .ok size →
    marking.moveContext.allocFromPageTable marking.pageTable size = .ok (some place, moveContext, pageTable) →
    ∀ idx page, heap.usedEndPage ≤ idx → state.shared.mm.slot idx = some page → pageTable.Lands state.shared.mm idx

end State.System

/-- The steps of the marker, and those of the mutators but for what they ask of the types. -/
def State.Action.WhileMarking {Request Thread : Type} : State.Action Request Thread → Prop
  | .collector action => action = .mark
  | .mutator _ (.request _) => False
  | .mutator _ _ => True

namespace State.System

variable {Types Request Thread : Type} {manager : TypeManager Types} {state next : System Types Thread}
  {heap : HeapInfo} {bit : Bit} {marking : Marking} {objects done : List Nat} {second : PageTable}
  {change : Request → Types → Except Panic Types}

theorem Sees.operate (sees : Sees manager state heap bit marking objects done)
    {thread : Thread} {arc : Nat} {context : ContextShared} {action : MutatorAction Request}
    (harmless : Harmless manager state (.mutator thread action))
    (described : action.Described manager state.shared.types)
    (concurrent : State.Action.WhileMarking (.mutator thread action))
    (own : state.shared.contexts.live thread = some arc) (found : state.shared.contexts.shared[arc]? = some context)
    (operates : Operates manager change state arc context action next) :
    ∃ objects, Sees manager next heap bit marking objects done := by
  have live := sees.marks.live
  have owned : state.shared.contexts.own thread = some context := by
    rw [Contexts.own, own]
    exact found
  have consistent (final : ContextShared) : (state.shared.contexts.setShared arc final).Consistent :=
    live.contexts.same Contexts.sameMap_setShared
  cases operates with
  | full requested served =>
      obtain ⟨_, step⟩ := Mm.Context.allocates_of_returned live.placed.indexed served
      rw [step.none_unchanged]
      refine ⟨objects, sees.withContexts (consistent _) ?_⟩
      intro ptr pointed
      rcases Contexts.pointers_setShared found pointed with old | same
      · exact reached_root old
      · exact live.own_reached own found same
  | alloc allocated =>
      obtain ⟨size, new⟩ := allocated.newObject described live own found
      obtain ⟨behind, _⟩ := harmless.alloc sees.marks.phase rfl owned allocated.requested allocated.served
      exact ⟨_, sees.alloc new behind⟩
  | load read held =>
      refine ⟨objects, sees.withContexts (consistent _) ?_⟩
      intro ptr pointed
      exact live.hold_reached own found held (fun nonnull => live.load_reached own found read nonnull) pointed
  | store there read =>
      obtain ⟨obj, size, slots, reached, shape, slotted, rfl⟩ := live.field_eq own found there
      have hides := harmless.store sees.marks.phase rfl owned there read
      refine ⟨objects, sees.store (live.reached_mem reached) shape slotted ?_ hides⟩
      exact fun nonnull => live.held_reached own found read nonnull
  | assign read held =>
      refine ⟨objects, sees.withContexts (consistent _) ?_⟩
      intro ptr pointed
      exact live.hold_reached own found held (fun nonnull => live.held_reached own found read nonnull) pointed
  | request => cases concurrent

/-- The object has a record, and a root that points to it can be fixed. -/
def Registered (heap : HeapInfo) (marking : Marking) (obj : Nat) : Prop :=
  ∃ record ∈ marking.registry.data.recordsSortedBySrc, heap.start + record.src = obj ∧
    relocate marking.registry.freeze ⟨heap.start, heap.toSpace⟩ "Cannot find relocation record" obj =
      .ok (heap.toSpace + record.dest)

/-- The object lies in a page that was opened since step 1, and step 3 has put that page into its table. -/
def InDonatedPage (heap : HeapInfo) (mm secondMm : PageTable) (obj : Nat) : Prop :=
  ∃ idx page, heap.usedEndPage ≤ idx ∧ idx < mm.getUsedEndPage ∧ mm.slot idx = some page ∧ page.range.Contains obj ∧
    ∃ place, secondMm.slot place = some page

theorem Marks.registered (marks : Marks manager state heap bit marking objects done) {obj : Nat} (member : obj ∈ done) :
    Registered heap marking obj := by
  have book := marks.book
  have separate := sources_apart marks.live.heap book.sources book.nodup book.members book.above
  have filled : ∀ record ∈ marking.registry.data.recordsSortedBySrc, 0 < record.size := by
    intro record recorded
    have listed := List.mem_map_of_mem (f := fun record : RelocationRecord => (record.src, record.size)) recorded
    rw [book.sources] at listed
    obtain ⟨other, there, same⟩ := List.mem_map.mp listed
    have header := marks.live.heap.size_pos (book.members other there)
    rw [← (Prod.mk.inj same).2]
    simp only [metadataSize] at header
    omega
  have listed := List.mem_map_of_mem (f := fun obj => (obj - heap.start, manager.sizeOf state.shared.types state.memory obj)) member
  rw [← book.sources] at listed
  obtain ⟨record, recorded, same⟩ := List.mem_map.mp listed
  have source : record.src = obj - heap.start := (Prod.mk.inj same).1
  have above := book.above obj member
  refine ⟨record, recorded, ?_, ?_⟩
  · rw [source]
    exact Nat.add_sub_cancel' above
  · exact relocate_returns separate filled marks.nonnull recorded above source _

/-- The marker's table is a compaction of what it has recorded into the spare table `second`, and
each page that was opened since step 1 has its place behind it. -/
structure Landing (state : System Types Thread) (heap : HeapInfo) (marking : Marking) (second : PageTable) : Prop where
  packed : marking.Packed heap second
  length : second.pageTable.length = second.nrPages
  room : state.shared.mm.nrPages + second.nrPages ≤ 2 ^ 64
  lands : ∀ idx page, heap.usedEndPage ≤ idx → state.shared.mm.slot idx = some page →
    marking.pageTable.Lands state.shared.mm idx

theorem Landing.same (landing : Landing state heap marking second) (mm : next.shared.mm = state.shared.mm) :
    Landing next heap marking second :=
  ⟨landing.packed, landing.length, mm ▸ landing.room, mm ▸ landing.lands⟩

theorem Landing.alloc (landing : Landing state heap marking second) (placed : state.shared.mm.Placed)
    {mm : PageTable} {kind : FlexPageKind} {buffer : Option Nat} {fits : FlexPage → Prop} {size ptr page : Nat}
    (step : PageTable.Allocates kind buffer fits size state.shared.mm (some (ptr, page)) mm) (positive : 0 < kind.nrPages)
    (lands : marking.pageTable.Lands state.shared.mm page) (swapped : next.shared.mm = mm) :
    Landing next heap marking second := by
  obtain ⟨base, nrPages, _⟩ := step.frame
  refine ⟨landing.packed, landing.length, swapped ▸ nrPages ▸ landing.room, ?_⟩
  intro idx there late found
  rw [swapped] at found ⊢
  rw [PageTable.Lands.frame base]
  by_cases same : idx = page
  · exact same ▸ lands
  · rw [step.others placed positive same] at found
    exact landing.lands idx there late found

/-- A step of the marker moves its own table only, and that in front of the pages opened beside it. -/
theorem Landing.step (landing : Landing state heap marking second) (phase : state.phase = .marking heap bit marking)
    (harmless : Harmless manager state (.collector .mark : Action Request Thread)) {memory : Memory} {later : Marking}
    (stepped : marking.step manager state.shared.types heap bit state.memory = .ok (some (memory, later)))
    (mm : next.shared.mm = state.shared.mm) : Landing next heap later second := by
  refine ⟨landing.packed.step stepped, landing.length, mm ▸ landing.room, ?_⟩
  intro idx page late found
  rw [mm] at found ⊢
  rcases Marking.step_cases stepped with ⟨obj, _, marked⟩ | ⟨obj, inHand, _, scanned⟩ | ⟨_, _, _, _, _, rfl⟩ |
    ⟨_, _, _, _, _, _, rfl⟩
  · have kept : later.pageTable = marking.pageTable := by
      simp only [Marking.mark] at marked
      split at marked <;> cases marked <;> rfl
    rw [kept]
    exact landing.lands idx page late found
  · obtain ⟨size, ptr, place, moveContext, pageTable, pointed, sized, served, _, _, _, rfl⟩ := Marking.scan_eq_ok.mp scanned
    exact harmless.mark phase rfl inHand sized served idx page late found
  · exact landing.lands idx page late found
  · exact landing.lands idx page late found

/-- Step 3 can put every page that was opened since step 1 into its table. -/
theorem Landing.donates (landing : Landing state heap marking second) (placed : state.shared.mm.Placed) :
    ∃ secondMm, Collector.donatePages state.shared.mm
        (List.range' heap.usedEndPage (state.shared.mm.getUsedEndPage - heap.usedEndPage)) marking.pageTable = .ok secondMm ∧
      Collector.Takes state.shared.mm marking.pageTable secondMm heap.usedEndPage state.shared.mm.getUsedEndPage := by
  obtain ⟨markerPlaced, _, nrPages, _⟩ := landing.packed.pages landing.length
  have bounded : state.shared.mm.getUsedEndPage ≤ state.shared.mm.nrPages := placed.bounded
  rcases Nat.le_total heap.usedEndPage state.shared.mm.getUsedEndPage with opened | none
  · have inTable : heap.usedEndPage + (state.shared.mm.getUsedEndPage - heap.usedEndPage) ≤ state.shared.mm.nrPages := by
      omega
    obtain ⟨final, donated, takes⟩ := Collector.donatePages_lands placed (nrPages ▸ landing.room) markerPlaced.free
      inTable landing.lands
    rw [Nat.add_sub_cancel' opened] at takes
    exact ⟨final, donated, takes⟩
  · rw [Nat.sub_eq_zero_of_le none]
    exact ⟨marking.pageTable, rfl, fun _ _ found => found, fun idx page late early => by omega⟩

theorem Live.donated (live : Live manager state objects) {obj : Nat} {secondMm : PageTable}
    (takes : Collector.Takes state.shared.mm marking.pageTable secondMm heap.usedEndPage state.shared.mm.getUsedEndPage)
    (inPage : InNewPage heap state.shared.mm obj) : InDonatedPage heap state.shared.mm secondMm obj := by
  obtain ⟨idx, page, late, found, inside⟩ := inPage
  have within := PageTable.usedRange_within live.placed found
  have below := live.placed.indexed.below found
  exact ⟨idx, page, late, below, found, within.contains inside, _, takes.taken idx page late below found⟩

/-- When the marker is through, step 3 puts every page that was opened since step 1 into its table,
and every object that is still reached has its record, or lies in one of these pages. -/
def LosesNothing (manager : TypeManager Types) (state : System Types Thread) : Prop :=
  ∀ heap bit marking, state.phase = .marking heap bit marking →
    marking.step manager state.shared.types heap bit state.memory = .ok none →
    ∃ secondMm, Collector.donatePages state.shared.mm
        (List.range' heap.usedEndPage (state.shared.mm.getUsedEndPage - heap.usedEndPage)) marking.pageTable = .ok secondMm ∧
      ∀ obj, state.Reaches manager obj → Registered heap marking obj ∨ InDonatedPage heap state.shared.mm secondMm obj

theorem Sees.losesNothing (sees : Sees manager state heap bit marking objects done)
    (landing : Landing state heap marking second) : LosesNothing manager state := by
  intro heap bit marking phase ended
  have marks := sees.marks
  rw [marks.phase] at phase
  cases phase
  obtain ⟨idle, stack, roots⟩ := Marking.step_eq_none ended
  have nothing : marking.grey = [] := by
    simp only [Marking.grey, idle, stack, roots, List.append_nil]
  obtain ⟨secondMm, donated, takes⟩ := landing.donates marks.live.placed
  refine ⟨secondMm, donated, fun obj reached => ?_⟩
  have marked := (sees.tracks obj reached).finished nothing
  rcases sees.accounts obj (marks.live.reached_mem reached) marked.1 with recorded | inHand | inPage
  · exact .inl (marks.registered recorded)
  · exact absurd inHand marked.2
  · exact .inr (marks.live.donated takes inPage)

theorem Landing.operate (landing : Landing state heap marking second) (live : Live manager state objects)
    (phase : state.phase = .marking heap bit marking) {thread : Thread} {arc : Nat} {context : ContextShared}
    {action : MutatorAction Request} (harmless : Harmless manager state (.mutator thread action))
    (own : state.shared.contexts.own thread = some context)
    (operates : Operates manager change state arc context action next) : Landing next heap marking second := by
  cases operates with
  | full _ served =>
      obtain ⟨_, step⟩ := Mm.Context.allocates_of_returned live.placed.indexed served
      rw [step.none_unchanged]
      exact landing.same rfl
  | @alloc _ _ _ _ _ size _ _ _ _ _ allocated =>
      obtain ⟨_, step⟩ := Mm.Context.allocates_of_returned live.placed.indexed allocated.served
      obtain ⟨_, lands⟩ := harmless.alloc phase rfl own allocated.requested allocated.served
      exact landing.alloc live.placed step (sizeClass_nrPages_pos size) lands rfl
  | load => exact landing.same rfl
  | store => exact landing.same rfl
  | assign => exact landing.same rfl
  | request => exact landing.same rfl

variable [DecidableEq Thread]

/-- What holds while the marker runs beside harmless mutators. -/
def Keeps (manager : TypeManager Types) (state : System Types Thread) : Prop :=
  ∃ heap bit marking objects done second,
    Sees manager state heap bit marking objects done ∧ Landing state heap marking second

theorem Keeps.action (keeps : Keeps manager state) {action : Action Request Thread}
    (harmless : Harmless manager state action) (described : action.Described manager state.shared.types)
    (concurrent : action.WhileMarking) (taken : System.step manager change state action = some next) : Keeps manager next := by
  obtain ⟨heap, bit, marking, objects, done, second, sees, landing⟩ := keeps
  have live := sees.marks.live
  cases step_eq_some taken with
  | newContext made =>
      refine ⟨heap, bit, marking, objects, done, second, sees.withContexts (live.contexts.newContext made) ?_, landing.same rfl⟩
      intro ptr pointed
      exact reached_root (live.contexts.pointers_newContext made pointed)
  | dropContext dropped =>
      refine ⟨heap, bit, marking, objects, done, second, sees.withContexts (live.contexts.dropContext dropped) ?_, landing.same rfl⟩
      obtain ⟨_, rfl⟩ := Contexts.dropContext_eq_some dropped
      exact fun ptr pointed => reached_root pointed
  | operate own found operates =>
      obtain ⟨more, kept⟩ := sees.operate harmless described concurrent own found operates
      refine ⟨heap, bit, marking, more, done, second, kept, landing.operate live sees.marks.phase harmless ?_ operates⟩
      rw [Contexts.own, own]
      exact found
  | collector acted =>
      cases concurrent
      have acts := Collector.act_eq_ok acted
      cases acts with
      | mark phase stepped =>
          rw [sees.marks.phase] at phase
          cases phase
          obtain ⟨recorded, kept⟩ := sees.step stepped
          exact ⟨heap, bit, _, objects, recorded, second, kept, landing.step sees.marks.phase harmless stepped rfl⟩

/-- A heap of unmarked objects in front of step 1, as the type manager has it behind, and spare
tables that fit into the address space beside it. -/
structure Ready (manager : TypeManager Types) (state : System Types Thread) (objects : List Nat) : Prop where
  live : Live manager { state with shared := { state.shared with types := manager.assumeAllDead state.shared.types } } objects
  unmarked : ∀ obj ∈ objects, (state.memory.metadata obj).isMarked ≠ state.shared.markTrueBit
  cached : state.gc = .new
  nonnull : ∀ second ∈ state.shared.secondMm, second.baseAddr ≠ 0
  length : ∀ second ∈ state.shared.secondMm, second.pageTable.length = second.nrPages
  room : ∀ second ∈ state.shared.secondMm, state.shared.mm.nrPages + second.nrPages ≤ 2 ^ 64

theorem Ready.keeps (ready : Ready manager state objects)
    (taken : System.step manager change state (.collector .step1) = some next) : Keeps manager next := by
  cases step_eq_some taken with
  | collector acted =>
      have acts := Collector.act_eq_ok acted
      cases acts with
      | @step1 second queue registry marker _ received cachedRegistry cachedMarker =>
          rw [ready.cached] at cachedRegistry cachedMarker
          cases cachedRegistry
          cases cachedMarker
          have spare : second ∈ state.shared.secondMm := received ▸ List.mem_cons_self
          have live := ready.live
          refine ⟨_, _, _, _, _, second, ⟨.snapshot live rfl (ready.nonnull second spare), ?_, ?_⟩, ?_⟩
          · refine Tricolour.Tracks.start (fun root pointed => pointed) ?_
            intro obj path isMarked
            exact ready.unmarked obj (live.heap.reachable_mem live.rooted path) isMarked.1
          · exact fun obj member isMarked => absurd isMarked (ready.unmarked obj member)
          · refine ⟨.start _, ready.length second spare, ready.room second spare, ?_⟩
            -- No page is opened yet.
            intro idx page late found
            exact absurd (live.placed.indexed.below found) (Nat.not_lt.mpr late)

/-- Marking beside any number of mutators loses nothing in any run whose stores hide nothing
from the marker, and whose allocations are served from pages that step 3 can donate. -/
theorem marking_loses_nothing {start : System Types Thread}
    (ready : Ready manager state objects) (snapshot : step manager change state (.collector .step1) = some start)
    {actions : List (Action Request Thread)} (concurrent : ∀ action ∈ actions, action.WhileMarking)
    (described : Transition.EachStep (step manager change) start actions
      fun state action => action.Described manager state.shared.types)
    (each : Transition.EachStep (step manager change) start actions (Harmless manager)) :
    Transition.Throughout (step manager change) start actions (LosesNothing manager) := by
  have both : Transition.EachStep (step manager change) start actions
      fun state action => (Harmless manager state action ∧ action.Described manager state.shared.types) ∧
        action.WhileMarking := by
    intro past action rest before split reached
    refine ⟨⟨each past action rest before split reached, described past action rest before split reached⟩,
      concurrent action ?_⟩
    rw [split]
    exact List.mem_append_right _ List.mem_cons_self
  have throughout := both.throughout (Keeps manager) (ready.keeps snapshot) ?_
  · intro past rest before split reached
    obtain ⟨_, _, _, _, _, _, sees, landing⟩ := throughout past rest before split reached
    exact sees.losesNothing landing
  · rintro before action next keeps ⟨⟨harmless, described⟩, whileMarking⟩ taken
    exact keeps.action harmless described whileMarking taken

theorem overLinked_ready : Ready TypeManager.pointerArrays Collector.overLinked linkedObjects where
  live := {
    contexts := {
      once := by simp [Collector.overLinked, Collector.overHeap]
      kept := by simp [Collector.overLinked, Collector.overHeap]
      made := by simp [Collector.overLinked, Collector.overHeap] }
    heap := (linked_wellFormed .bit1).heap
    rooted := (linked_wellFormed .bit1).roots
    placed := by
      have returned : Mm.Context.new.allocEach (PageTable.new 4398046511104 8).clear [32, 24, 262160] =
          .ok ([(4398046511104, 0), (4398046511136, 0), (4398048608256, 1)], ⟨some 0⟩, Collector.overLinked.shared.mm) := by
        decide +kernel
      exact (Mm.allocEach_pages (.clear rfl) returned).1
    held := by
      obtain ⟨pair, data, buffer⟩ := linked_shapes .bit1
      have held : ∀ range ∈ linkedObjects.map (TypeManager.pointerArrays.range () (linked .bit1).memory),
          Collector.overLinked.shared.mm.Holds range := by
        simp only [linkedObjects, List.map_cons, List.map_nil, pair.range_eq, data.range_eq, buffer.range_eq,
          List.forall_mem_cons]
        refine ⟨⟨0, _, rfl, ?_⟩, ⟨0, _, rfl, ?_⟩, ⟨1, _, rfl, ?_⟩, List.forall_mem_nil _⟩ <;> decide +kernel
      exact fun obj member => held _ (List.mem_map_of_mem member) }
  unmarked := linked_unmarked .bit1
  cached := rfl
  nonnull := by simp [Collector.overLinked, Collector.overHeap, PageTable.new]
  length := by simp [Collector.overLinked, Collector.overHeap, PageTable.new]
  room := by simp [Collector.overLinked, Collector.overHeap, PageTable.new]

section Checks

variable (heap : HeapInfo) (bit : Bit) (marking : Marking) (state : System Unit Unit)

def markStep : Bool :=
  match marking.inHand with
  | some (.marked obj) =>
      match TypeManager.pointerArrays.getSize state.shared.types state.memory obj with
      | .ok size =>
          match marking.moveContext.allocFromPageTable marking.pageTable size with
          | .ok (some _, _, table) => decide (∀ idx < state.shared.mm.pageTable.length, heap.usedEndPage ≤ idx →
              state.shared.mm.slot idx ≠ none → table.Lands state.shared.mm idx)
          | _ => true
      | _ => true
  | _ => true

def allocStep (context : ContextShared) (ty : AllocType) (extraBytes : Nat) : Bool :=
  match (state.mutator context).requestedBytes TypeManager.pointerArrays ty extraBytes with
  | .ok size =>
      match context.mmContext.allocFromPageTable state.shared.mm size with
      | .ok (some (_, page), _, _) => decide (heap.usedEndPage ≤ page ∧ marking.pageTable.Lands state.shared.mm page)
      | _ => true
  | _ => true

/-- Behind the store the roots lead to these objects only, and each of them is done or is still to
be visited, itself or from one that is. -/
def storeStep (objects : List Nat) (address value : Nat) : Bool :=
  let memory : Memory := Function.update state.memory address value
  let children := TypeManager.pointerArrays.children state.shared.types memory
  let finished (obj : Nat) : Bool := decide ((memory.metadata obj).isMarked = bit ∧ marking.inHand ≠ some (.marked obj))
  decide (∀ ptr ∈ state.shared.contexts.pointers, ptr ∈ objects) &&
    objects.all fun obj => decide (∀ child ∈ children obj, child ∈ objects) &&
      (finished obj || decide (obj ∈ marking.grey) || marking.grey.any fun parent =>
        !finished parent && decide (obj ∈ children parent))

def harmlessStep (objects : List Nat) (state : System Unit Unit) (action : Action Unit Unit) : Bool :=
  match state.phase, action, state.shared.contexts.own () with
  | .marking heap _ marking, .collector .mark, _ => markStep heap marking state
  | .marking heap _ marking, .mutator _ (.alloc ty extraBytes _ _), some context =>
      allocStep heap marking state context ty extraBytes
  | .marking _ bit marking, .mutator _ (.store slot field from?), some context =>
      match state.field TypeManager.pointerArrays context slot field, System.held context from? with
      | some address, some value => storeStep bit marking state objects address value
      | _, _ => true
  | _, _, _ => true

variable {bit marking state}

theorem storeStep_sound {objects : List Nat} {address value : Nat}
    (checked : storeStep bit marking state objects address value = true) :
    state.HidesNothing TypeManager.pointerArrays bit marking address value := by
  intro obj reached _
  simp only [storeStep, Bool.and_eq_true, decide_eq_true_eq, List.all_eq_true, Bool.or_eq_true, List.any_eq_true,
    Bool.not_eq_true', decide_eq_false_iff_not] at checked
  obtain ⟨rooted, each⟩ := checked
  have member : obj ∈ objects := by
    refine GraphSearch.Reachable.closed reached rooted ?_
    exact fun parent child inside pointed => (each parent inside).1 child pointed
  rcases (each obj member).2 with (done | grey) | ⟨parent, grey, white, pointed⟩
  · exact .marked done
  · exact .grey grey
  · exact .child (.grey grey) white pointed

end Checks

theorem harmlessStep_sound (objects : List Nat) (state : System Unit Unit) (action : Action Unit Unit)
    (checked : harmlessStep objects state action = true) : Harmless TypeManager.pointerArrays state action := by
  constructor
  case store =>
    rintro heap bit marking thread context slot field from? address value phase rfl own found read
    cases thread
    simp only [harmlessStep, phase, own, found, read] at checked
    exact storeStep_sound checked
  case alloc =>
    rintro heap bit marking thread context ty extraBytes init slot size ptr page mmContext mm phase rfl own requested served
    cases thread
    simp only [harmlessStep, phase, own, allocStep, requested, served, decide_eq_true_eq] at checked
    exact checked
  case mark =>
    rintro heap bit marking obj size place moveContext pageTable phase rfl inHand sized served idx page late found
    simp only [harmlessStep, phase, markStep, inHand, sized, served, decide_eq_true_eq] at checked
    refine checked idx (PageTable.slot_lt_length found) late ?_
    rw [found]
    exact Option.some_ne_none page

/-- While it is marked, the mutator opens a page for a new object, overwrites the pointer of the
pair to itself with one to the new object, takes another one to the buffer and lets go of the pair. -/
def besideMarker : List (Action Unit Unit) :=
  [.collector .mark, .mutator () (.alloc (.plainOldData 8) 0 [7] 1), .mutator () (.store 0 8 (some 1)), .collector .mark,
    .mutator () (.load 0 0 1), .collector .mark, .mutator () (.assign 0 none), .collector .mark, .collector .mark,
    .collector .mark, .collector .mark, .collector .mark, .collector .mark]

theorem marking_loses_nothing_linked :
    ∃ start, step TypeManager.pointerArrays (fun (_ : Unit) types => .ok types) Collector.overLinked (.collector .step1) = some start ∧
      (Transition.run (step TypeManager.pointerArrays fun _ types => .ok types) start besideMarker).isSome = true ∧
      Transition.Throughout (step TypeManager.pointerArrays fun _ types => .ok types) start besideMarker
        (LosesNothing TypeManager.pointerArrays) := by
  refine ⟨_, rfl, by decide +kernel, ?_⟩
  refine marking_loses_nothing overLinked_ready rfl ?_ ?_ ?_
  · simp [besideMarker, State.Action.WhileMarking]
  · exact fun _ action _ _ _ _ => action.described_pointerArrays
  · refine Transition.eachStep_of_everyStep (harmlessStep_sound [4398046511104, 4398048608256, 4398056996864]) ?_
    decide +kernel

/-- One mutator keeps an object only in a field of another when the roots are snapshot. -/
def beforeHiding : List (Action Unit Nat) :=
  [.mutator 0 (.newContext 2), .mutator 0 (.alloc (.plainOldData 8) 0 [] 0), .mutator 0 (.alloc (.typed 1) 0 [4194304] 1),
    .mutator 0 (.assign 0 none), .collector .flush, .collector .step1]

/-- It moves the pointer to a root and clears the field before the marker scans it. -/
def hidingRun : List (Action Unit Nat) :=
  [.mutator 0 (.load 1 0 0), .mutator 0 (.store 1 0 none), .collector .mark, .collector .mark, .collector .mark,
    .collector .mark]

def hidingStep : System Unit Nat → Action Unit Nat → Option (System Unit Nat) :=
  step TypeManager.pointerArrays fun _ types => .ok types

theorem hidden_object_lost :
    ∃ start final, Transition.run hidingStep (new 4194304 8388608 2 ()) beforeHiding = some start ∧
      (∀ action ∈ hidingRun, action.WhileMarking) ∧ Transition.run hidingStep start hidingRun = some final ∧
      ¬ LosesNothing TypeManager.pointerArrays final ∧
      (Collector.act TypeManager.pointerArrays final .step3).map (fun _ => ()) =
        .error (.message "Cannot find relocation record") := by
  have seen : ((Transition.run hidingStep (new 4194304 8388608 2 ()) beforeHiding).bind fun start =>
      (Transition.run hidingStep start hidingRun).map fun final =>
        (final.phase, final.shared.contexts.rootSets, final.shared.mm.getUsedEndPage,
          (Collector.act TypeManager.pointerArrays final .step3).map fun _ => ())) =
      some (.marking ⟨4194304, 1, 8388608⟩ .bit1
          { roots := []
            markStack := []
            inHand := none
            pageTable := ⟨8388608, 1, 2, [some ⟨.small, 8388608, 24⟩, none], none⟩
            moveContext := ⟨some 0⟩
            registry := ⟨⟨[⟨24, 0, 24⟩], [⟨24, 0, 24⟩], some 24, some 0, some 48, some 24⟩⟩ },
        [[some 4194304, some 4194328]], 1, .error (.message "Cannot find relocation record")) := by
    decide +kernel
  obtain ⟨start, before, rest⟩ := Option.bind_eq_some_iff.mp seen
  obtain ⟨final, ran, view⟩ := Option.map_eq_some_iff.mp rest
  simp only [Prod.mk.injEq] at view
  obtain ⟨phase, roots, usedEnd, panics⟩ := view
  refine ⟨start, final, before, ?_, ran, ?_, panics⟩
  · simp [hidingRun, State.Action.WhileMarking]
  · intro loses
    have rooted : System.Reaches TypeManager.pointerArrays final 4194304 := by
      apply reached_root
      simp [Contexts.pointers, roots, RootSet.iterPointers]
    obtain ⟨_, _, each⟩ := loses _ _ _ phase (Marking.step_done rfl rfl rfl)
    rcases each 4194304 rooted with registered | donated
    · obtain ⟨record, recorded, source, _⟩ := registered
      cases List.mem_singleton.mp recorded
      cases source
    · obtain ⟨idx, page, late, below, _⟩ := donated
      rw [usedEnd] at below
      exact absurd below (Nat.not_lt.mpr late)

end State.System

end UwUGC
