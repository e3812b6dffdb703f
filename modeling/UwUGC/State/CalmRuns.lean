import UwUGC.State.CalmSteps

/-! Whole runs of the system, cycle after cycle, with mutators in every phase. -/

set_option autoImplicit false

namespace UwUGC

open Gc PageTable

namespace Gc.CopierActive

variable {Types : Type} {manager : TypeManager Types} {types later : Types} {copier : CopierActive}
  {memory buffer : Memory} {pageRange : Span} {records : List RelocationRecord}

/-- A page is built of its objects as they can be moved, whatever else the types say. -/
theorem copyRecords_retyped
    (movable : ∀ record ∈ records, ∃ slots, manager.Movable types memory (copier.source record) record.size slots ∧
      manager.Movable later memory (copier.source record) record.size slots) :
    copyRecords manager later copier memory pageRange records buffer =
      copyRecords manager types copier memory pageRange records buffer := by
  induction records generalizing buffer with
  | nil => rfl
  | cons record rest ih =>
      obtain ⟨slots, before, now⟩ := movable record List.mem_cons_self
      have same (dest : Nat) : manager.updateGcPointers later copier.updater
          (buffer.copy memory (copier.source record) dest record.size) dest =
          manager.updateGcPointers types copier.updater
            (buffer.copy memory (copier.source record) dest record.size) dest := by
        rw [(movable_copy now).update_eq, (movable_copy before).update_eq]
      have first : copyRecord manager later copier memory pageRange record buffer =
          copyRecord manager types copier memory pageRange record buffer := by
        simp only [source, updater] at same
        simp only [copyRecord, same]
      simp only [copyRecords, first]
      congr 1
      funext middle
      exact ih fun other member => movable other (List.mem_cons_of_mem _ member)

theorem Copies.retyped (copies : copier.Copies manager types memory)
    (kept : manager.KeepsObjects types later) :
    copier.Copies manager later memory ∧ copier.view manager later memory = copier.view manager types memory := by
  have movable (record : RelocationRecord) (member : record ∈ copier.records) :
      ∃ slots, manager.Movable types memory (copier.source record) record.size slots ∧
        manager.Movable later memory (copier.source record) record.size slots := by
    obtain ⟨slots, before⟩ := copies.sourced.movable record member
    exact ⟨slots, before, kept.movable _ _ _ _ before⟩
  have same (page : FlexPage) :
      copyRecords manager later copier memory (copier.pageRange page) (copier.lookup page) (fun _ => 0) =
        copyRecords manager types copier memory (copier.pageRange page) (copier.lookup page) (fun _ => 0) :=
    copyRecords_retyped fun record listed => movable record (lookup_sublist.subset listed)
  refine ⟨⟨copies.laid, ⟨?_, copies.sourced.outside⟩, ?_⟩, ?_⟩
  · intro record member
    obtain ⟨slots, _, now⟩ := movable record member
    exact ⟨slots, now⟩
  · intro idx page found
    obtain ⟨buffer, built⟩ := copies.buildable idx page found
    exact ⟨buffer, (same page).trans built⟩
  · funext address
    simp only [view, promised, same]

theorem Laid.finished_bit {idx : Nat} {page : FlexPage} (laid : copier.Laid) (finished : copier.finished = true)
    (found : copier.pageTable.slot idx = some page) : copier.workDone.bit idx = true := by
  have bound : idx < copier.pageTable.nrPages := by
    have top := laid.placed.within found
    have nonempty := laid.placed.nonempty found
    have bounded := laid.placed.bounded
    omega
  have all := List.all_eq_true.mp finished idx (List.mem_range.mpr bound)
  simpa [found] using all

end Gc.CopierActive

namespace State.System

variable {Types Request Thread : Type} {manager : TypeManager Types} {state next : System Types Thread}
  {heap : HeapInfo} {bit : Bit} {marking later : Marking} {objects done : List Nat} {second : PageTable}
  {copier : CopierActive} {change : Request → Types → Except Panic Types}

theorem Relocating.retyped (relocating : Relocating manager state copier objects) {types : Types}
    (kept : manager.KeepsObjects state.shared.types types) :
    Relocating manager (state.withTypes types) copier objects ∧
      (state.withTypes types).seen manager = (state.seen manager).withTypes types := by
  obtain ⟨copies, view⟩ := relocating.copies.retyped kept
  have same : (state.withTypes types).seen manager = (state.seen manager).withTypes types := by
    rw [seen_relocating relocating.phase, withTypes]
    simp only [← view]
    exact seen_relocating relocating.phase
  refine ⟨⟨relocating.phase, copies, relocating.space, relocating.base, relocating.aligned, ?_, ?_⟩, same⟩
  · rw [same]
    exact relocating.live.retyped (by simpa using kept.shapes)
  · intro obj member
    rw [same]
    have sized : manager.sizeOf types (state.seen manager).memory obj = _ :=
      (relocating.live.retyped_object (by simpa using kept.shapes) member).1
    rw [seen_shared] at sized
    change (∃ idx page, copier.pageTable.slot idx = some page ∧
      (Span.mk obj (manager.sizeOf types (state.seen manager).memory obj)).Within page.range) ∨
      ∀ address, (Span.mk obj (manager.sizeOf types (state.seen manager).memory obj)).Contains address →
        copier.present address = true
    rw [sized]
    exact relocating.whole obj member

section Tracing

variable (tracing : Tracing manager state heap bit marking objects done second)

include tracing

/-- One step of the marker. -/
theorem Tracing.marks {after : Memory}
    (stepped : marking.step manager state.shared.types heap bit state.memory = .ok (some (after, later))) :
    ∃ recorded, Tracing manager { state with memory := after, phase := .marking heap bit later } heap bit later objects
      recorded second := by
  have marks := tracing.sees.marks
  have heapNow := marks.live.heap
  have keeps := marks.keeps_step stepped
  obtain ⟨recorded, sees, closed⟩ : ∃ recorded,
      Sees manager { state with memory := after, phase := .marking heap bit later } heap bit later objects recorded ∧
      ∀ obj ∈ recorded, ∀ child ∈ manager.children state.shared.types after obj,
        (later.colours manager state.shared.types bit after).Covered child := by
    -- What was covered before is, if the children are the same.
    have kept (obj : Nat) (member : obj ∈ done)
        (children : manager.children state.shared.types after obj = manager.children state.shared.types state.memory obj)
        (child : Nat) (pointed : child ∈ manager.children state.shared.types after obj) :
        (later.colours manager state.shared.types bit after).Covered child := by
      rw [children] at pointed
      exact keeps.covered (heapNow.closed obj (marks.book.members obj member) child pointed) (tracing.closed obj member child pointed)
    rcases Marking.step_moves stepped with ⟨rfl, moved⟩ | ⟨obj, inHand, unmarked, rfl, rfl⟩ | ⟨obj, inHand, rfl, scanned⟩
    · exact ⟨done, tracing.sees.moved moved, fun obj member => kept obj member rfl⟩
    · refine ⟨done, tracing.sees.marked inHand unmarked, fun other member => kept other member ?_⟩
      have bodies := heapNow.setMarked (marks.inHand_mem (.inl inHand)) bit
      exact heapNow.same_children bodies (marks.book.members other member)
    · refine ⟨done ++ [obj], tracing.sees.scanned inHand scanned, ?_⟩
      intro other member child pointed
      rcases List.mem_append.mp member with old | new
      · exact kept other old rfl child pointed
      · rw [List.mem_singleton.mp new] at pointed
        obtain ⟨_, _, _, _, _, listed, _, _, _, _, walked, rfl⟩ := Marking.scan_eq_ok.mp scanned
        rw [TypeManager.children, walked] at pointed
        refine .grey ?_
        simp [Marking.colours, Marking.grey, Marking.scanned, pointed]
  exact ⟨recorded, sees, closed, tracing.packed.step stepped, tracing.start, tracing.usedEnd, tracing.toSpace,
    tracing.spaces, tracing.arcs, tracing.secondMm, tracing.cached⟩

theorem Tracing.retyped {types : Types} (kept : manager.KeepsShapes state.shared.types types) :
    Tracing manager (state.withTypes types) heap bit marking objects done second := by
  have marks := tracing.sees.marks
  have same (obj : Nat) (member : obj ∈ objects) := marks.live.retyped_object kept member
  have keeps : Tricolour.Keeps (· ∈ objects) (marking.colours manager state.shared.types bit state.memory)
      (marking.colours manager types bit state.memory) := by
    refine ⟨marks.grey, marks.live.heap.closed, fun obj _ isMarked => .marked isMarked, fun obj isGrey => .grey isGrey, ?_⟩
    intro parent member white child pointed
    refine .inr ⟨white, ?_⟩
    change child ∈ manager.children types state.memory parent
    rw [(same parent member).2]
    exact pointed
  have reached (obj : Nat) (path : (state.withTypes types).Reaches manager obj) : state.Reaches manager obj := by
    have both : obj ∈ objects ∧ state.Reaches manager obj := by
      refine @GraphSearch.Reachable.closed _ _ _ _ (fun obj => obj ∈ objects ∧ state.Reaches manager obj) path ?_ ?_
      · exact fun root pointed => ⟨marks.live.rooted root pointed, reached_root pointed⟩
      · rintro parent child ⟨member, before⟩ pointed
        change child ∈ manager.children types state.memory parent at pointed
        rw [(same parent member).2] at pointed
        exact ⟨marks.live.heap.closed parent member child pointed, before.child pointed⟩
    exact both.2
  have book : Book manager types heap bit state.memory marking objects done := by
    refine ⟨marks.book.nodup, marks.book.members, marks.book.marked, marks.book.above, ?_⟩
    rw [marks.book.sources]
    apply List.map_congr_left
    intro obj member
    rw [(same obj (marks.book.members obj member)).1]
  have sees : Sees manager (state.withTypes types) heap bit marking objects done := by
    refine ⟨⟨marks.phase, marks.flipped, marks.nonnull, marks.live.retyped kept, marks.grey, marks.inHand, book⟩, ?_,
      tracing.sees.accounts⟩
    exact fun obj path => keeps.covered (marks.live.reached_mem (reached obj path)) (tracing.sees.tracks obj (reached obj path))
  refine ⟨sees, ?_, tracing.packed, tracing.start, tracing.usedEnd, tracing.toSpace, tracing.spaces, tracing.arcs,
    tracing.secondMm, tracing.cached⟩
  intro obj member child pointed
  change child ∈ manager.children types state.memory obj at pointed
  rw [(same obj (marks.book.members obj member)).2] at pointed
  exact keeps.covered (marks.live.heap.closed obj (marks.book.members obj member) child pointed)
    (tracing.closed obj member child pointed)

end Tracing

/-- Behind a store the marker still comes to every object that it came to before. -/
def UncoversNothing (manager : TypeManager Types) (state : System Types Thread) (bit : Bit) (marking : Marking)
    (address value : Nat) : Prop :=
  ∀ obj, (marking.colours manager state.shared.types bit state.memory).Covered obj →
    (marking.colours manager state.shared.types bit (Function.update state.memory address value)).Covered obj

/-- While it marks, no store takes an object from the marker and no allocation is served; the type
tables keep what they say of the objects that are left, and of what is allocated the contract is kept;
and the marker has gone back to no older page. -/
structure Calm (manager : TypeManager Types) (change : Request → Types → Except Panic Types) (state : System Types Thread)
    (action : Action Request Thread) : Prop where
  described : action.Described manager state.shared.types
  store : ∀ {heap bit marking thread context slot field from? address value},
    state.phase = .marking heap bit marking → action = .mutator thread (.store slot field from?) →
    state.shared.contexts.own thread = some context → state.field manager context slot field = some address →
    held context from? = some value → state.UncoversNothing manager bit marking address value
  alloc : ∀ {heap bit marking thread context ty extraBytes init slot size place mmContext mm},
    state.phase = .marking heap bit marking → action = .mutator thread (.alloc ty extraBytes init slot) →
    state.shared.contexts.own thread = some context →
    (state.mutator context).requestedBytes manager ty extraBytes = .ok size →
    context.mmContext.allocFromPageTable state.shared.mm size ≠ .ok (some place, mmContext, mm)
  request : ∀ {thread request types}, action = .mutator thread (.request request) →
    change request state.shared.types = .ok types → manager.KeepsObjects state.shared.types types
  step1 : action = .collector .step1 → manager.KeepsShapes state.shared.types (manager.assumeAllDead state.shared.types)
  step3 : ∀ {heap bit marking}, action = .collector .step3 → state.phase = .marking heap bit marking →
    Mm.InPageOrder (marking.records.map RelocationRecord.size) ∧
    ∀ record ∈ marking.records, ∀ size slots,
      manager.Shape state.shared.types state.memory (heap.start + record.src) size slots →
      manager.Movable (manager.wipeDeads state.shared.types) state.memory (heap.start + record.src) size slots

section Mutator

variable [DecidableEq Thread] {thread : Thread} {arc : Nat} {context : ContextShared}

/-- No two threads come to share a context. -/
theorem Steps.arcs {action : MutatorAction Request} (taken : Steps manager change state (.mutator thread action) next)
    (consistent : state.shared.contexts.Consistent) (arcs : (state.shared.contexts.entries.map Prod.snd).Nodup) :
    (next.shared.contexts.entries.map Prod.snd).Nodup := by
  cases taken with
  | @newContext _ slots contexts made =>
      change (contexts.entries.map Prod.snd).Nodup
      obtain ⟨_, entries, _, _⟩ := Contexts.newContext_eq_some made
      rw [entries, List.map_append, List.nodup_append]
      refine ⟨arcs.sublist (List.filter_sublist.map _), List.nodup_singleton _, ?_⟩
      intro left leftMember right rightMember
      obtain ⟨entry, listed, rfl⟩ := List.mem_map.mp leftMember
      have below := consistent.made entry.1 entry.2 (List.mem_of_mem_filter listed)
      simp only [List.map_cons, List.map_nil, List.mem_singleton] at rightMember
      omega
  | dropContext dropped =>
      obtain ⟨_, rfl⟩ := Contexts.dropContext_eq_some dropped
      exact arcs
  | operate _ _ operates => cases operates <;> exact arcs

omit [DecidableEq Thread] in
theorem Tracing.withContexts (tracing : Tracing manager state heap bit marking objects done second)
    {contexts : Contexts Thread} (consistent : contexts.Consistent) (arcs : (contexts.entries.map Prod.snd).Nodup)
    (reached : ∀ ptr ∈ contexts.pointers, state.Reaches manager ptr) :
    Tracing manager (state.withContexts contexts) heap bit marking objects done second :=
  ⟨tracing.sees.withContexts consistent reached, tracing.closed, tracing.packed, tracing.start, tracing.usedEnd,
    tracing.toSpace, tracing.spaces, arcs, tracing.secondMm, tracing.cached⟩

omit [DecidableEq Thread] in
theorem Live.held_pointer (live : Live manager state objects) (own : state.shared.contexts.live thread = some arc)
    (found : state.shared.contexts.shared[arc]? = some context) {from? : Option Nat} {value : Nat}
    (read : System.held context from? = some value) (nonnull : value ≠ 0) : value ∈ state.shared.contexts.pointers := by
  refine live.contexts.live_pointers own found (RootSet.mem_iterPointers.mpr ?_)
  cases from? with
  | none =>
      cases read
      exact absurd rfl nonnull
  | some slot =>
      obtain ⟨entry, inSlot, rfl⟩ := Option.map_eq_some_iff.mp read
      cases entry with
      | none => exact absurd rfl nonnull
      | some ptr => exact List.mem_of_getElem? inSlot

omit [DecidableEq Thread] in
theorem Tracing.store (tracing : Tracing manager state heap bit marking objects done second)
    {obj size slot value : Nat} {slots : List Nat} (member : obj ∈ objects)
    (shape : manager.Shape state.shared.types state.memory obj size slots) (slotted : slot ∈ slots)
    (pointed : value ≠ 0 → value ∈ state.shared.contexts.pointers)
    (uncovers : state.UncoversNothing manager bit marking (obj + metadataSize + slot) value) :
    Tracing manager (state.withMemory (TypeManager.stored state.memory obj slot value)) heap bit marking objects done
      second := by
  have marks := tracing.sees.marks
  have sees := tracing.sees.store member shape slotted (fun nonnull => reached_root (pointed nonnull))
    fun other _ => uncovers other
  refine ⟨sees, ?_, tracing.packed, tracing.start, tracing.usedEnd, tracing.toSpace, tracing.spaces, tracing.arcs,
    tracing.secondMm, tracing.cached⟩
  intro other recorded child childPointed
  have there := marks.book.members other recorded
  rcases marks.live.heap.stored_pointed member shape slotted there childPointed with ⟨rfl, rfl⟩ | old
  · -- What is stored is a root of the thread that stores it.
    have nonnull : child ≠ 0 := by
      change child ∈ manager.children state.shared.types (TypeManager.stored state.memory other slot child) other at childPointed
      rw [(shape.stored slotted).children_eq, TypeManager.pointers, List.mem_filter] at childPointed
      exact of_decide_eq_true childPointed.2
    exact sees.tracks child (reached_root (pointed nonnull))
  · exact uncovers child (tracing.closed other recorded child old)

theorem Tracing.mutator (tracing : Tracing manager state heap bit marking objects done second)
    {action : MutatorAction Request} (quiet : ∀ request, action ≠ .request request)
    (calm : Calm manager change state (.mutator thread action))
    (taken : Steps manager change state (.mutator thread action) next) :
    Tracing manager next heap bit marking
      (state.allocated manager (.mutator thread action : Action Request Thread) ++ objects) done second := by
  have live := tracing.sees.marks.live
  have arcs := taken.arcs live.contexts tracing.arcs
  have phase := tracing.sees.marks.phase
  cases taken with
  | newContext made =>
      refine tracing.withContexts (live.contexts.newContext made) arcs ?_
      exact fun ptr pointed => reached_root (live.contexts.pointers_newContext made pointed)
  | dropContext dropped =>
      refine tracing.withContexts (live.contexts.dropContext dropped) arcs ?_
      obtain ⟨_, rfl⟩ := Contexts.dropContext_eq_some dropped
      exact fun ptr pointed => reached_root pointed
  | @operate _ _ arc context _ own found operates =>
      have owned : state.shared.contexts.own thread = some context := by
        rw [Contexts.own, own]
        exact found
      have consistent (final : ContextShared) : (state.shared.contexts.setShared arc final).Consistent :=
        live.contexts.same Contexts.sameMap_setShared
      cases operates with
      | full requested served =>
          obtain ⟨_, step⟩ := Mm.Context.allocates_of_returned live.placed.indexed served
          have granted : (state.mutator context).mmContext.allocFromPageTable (state.mutator context).mm _ = _ := served
          simp only [allocated, owned, Mutator.allocFast, requested, granted, bind, Except.bind, List.nil_append]
          rw [step.none_unchanged]
          refine tracing.withContexts (consistent _) arcs ?_
          intro ptr pointed
          rcases Contexts.pointers_setShared found pointed with old | same
          · exact reached_root old
          · exact live.own_reached own found same
      | alloc allocated => exact absurd allocated.served (calm.alloc phase rfl owned allocated.requested)
      | load read held =>
          refine tracing.withContexts (consistent _) arcs ?_
          exact fun ptr => live.hold_reached own found held fun nonnull => live.load_reached own found read nonnull
      | @store slot field address value from? there read =>
          have uncovers := calm.store phase rfl owned there read
          obtain ⟨obj, member, size, slots, shape, slotted, _, rfl⟩ := live.finds own found there
          exact tracing.store member shape slotted (live.held_pointer own found read) uncovers
      | assign read held =>
          refine tracing.withContexts (consistent _) arcs ?_
          exact fun ptr => live.hold_reached own found held fun nonnull => live.held_reached own found read nonnull
      | request => exact absurd rfl (quiet _)

end Mutator

/-- What holds of the objects that the mutators see, phase by phase. -/
inductive Sound (manager : TypeManager Types) (state : System Types Thread) (objects : List Nat) : Prop where
  | resting {second : PageTable} (phase : state.phase = .idle ∨ state.phase = .flushed)
      (received : state.shared.secondMm = [second]) (cached : state.gc = .new)
      (resting : Resting manager state objects second)
  | marking {heap : HeapInfo} {bit : Bit} {marking : Marking} {done : List Nat} {second : PageTable}
      (tracing : Tracing manager state heap bit marking objects done second)
  | relocating {copier : CopierActive} (relocating : Relocating manager state copier objects)
      (queue : state.shared.secondMm = []) (cached : state.gc = ⟨none, some .new⟩)
      (resting : Resting manager (state.seen manager) objects copier.fromMm)
  | cleared {second : PageTable} (phase : state.phase = .cleared second) (queue : state.shared.secondMm = [])
      (cached : state.gc = .new) (resting : Resting manager state objects second)

/-- What a step leaves of what the mutators see: either a mutator did what it asked for, or the
objects that are left were carried along. -/
inductive Turns [DecidableEq Thread] (manager : TypeManager Types) (state next : System Types Thread)
    (action : Action Request Thread) (objects : List Nat) : List Nat → Prop where
  | asked {op : HeapOp Thread} {left : List Nat} (asked : (state.seen manager).asks manager action = some op)
      (steps : ObjectStore.Steps ((state.seen manager).heapStore manager objects) op
        ((next.seen manager).heapStore manager left)) : Turns manager state next action objects left
  | carried {kept : List Nat} {place : Nat → Nat} (silent : (state.seen manager).asks manager action = none)
      (members : ∀ obj ∈ kept, obj ∈ objects)
      (carried : Carried manager (state.seen manager) (next.seen manager) kept place) :
      Turns manager state next action objects (kept.map place)

theorem seen_same (quiet : ∀ copier, state.phase ≠ .relocating copier) : state.seen manager = state := by
  unfold seen
  split
  · next copier relocates => exact absurd relocates (quiet copier)
  · rfl

theorem Sound.live (sound : Sound manager state objects) : Live manager (state.seen manager) objects := by
  cases sound with
  | resting phase _ _ resting =>
      rw [seen_same fun copier relocates => by rcases phase with phase | phase <;> cases phase.symm.trans relocates]
      exact resting.live
  | marking tracing =>
      rw [seen_same fun copier relocates => by cases tracing.sees.marks.phase.symm.trans relocates]
      exact tracing.sees.marks.live
  | relocating _ _ _ resting => exact resting.live
  | cleared phase _ _ resting =>
      rw [seen_same fun copier relocates => by cases phase.symm.trans relocates]
      exact resting.live

theorem Sound.apart [DecidableEq Thread] (sound : Sound manager state objects) : (state.seen manager).Apart := by
  refine ⟨?_, ?_⟩
  all_goals rw [seen_shared]
  · cases sound with
    | resting _ _ _ resting => exact resting.spaces.nonnull
    | marking tracing => exact tracing.spaces.nonnull
    | relocating _ _ _ resting => simpa using resting.spaces.nonnull
    | cleared _ _ _ resting => exact resting.spaces.nonnull
  · cases sound with
    | resting _ _ _ resting => exact resting.arcs
    | marking tracing => exact tracing.arcs
    | relocating _ _ _ resting => simpa using resting.arcs
    | cleared _ _ _ resting => exact resting.arcs

section Steps

variable [DecidableEq Thread] {thread : Thread}

theorem Turns.stays {action : Action Request Thread} (silent : (state.seen manager).asks manager action = none)
    (carried : Carried manager (state.seen manager) (next.seen manager) objects id) :
    Turns manager state next action objects objects := by
  have turns := Turns.carried silent (fun _ member => member) carried
  rwa [List.map_id] at turns

/-- A step of a mutator that asks nothing of the types. -/
theorem Sound.mutator (sound : Sound manager state objects) {action : MutatorAction Request}
    (quiet : ∀ request, action ≠ .request request) (calm : Calm manager change state (.mutator thread action))
    (taken : Steps manager change state (.mutator thread action) next) :
    ∃ left, Sound manager next left ∧ Turns manager state next (.mutator thread action : Action Request Thread) objects left := by
  have seenDescribed : action.Described manager (state.seen manager).shared.types := by
    rw [seen_shared]
    exact calm.described
  -- It is the same step on what the mutators see.
  obtain ⟨seenTaken, after⟩ : Steps manager change (state.seen manager) (.mutator thread action) (next.seen manager) ∧
      Sound manager next
        ((state.seen manager).allocated manager (.mutator thread action : Action Request Thread) ++ objects) := by
    cases sound with
    | resting phase received cached resting =>
        have mutated := resting.live.mutates calm.described quiet taken
        have notMoving (copier : CopierActive) : state.phase ≠ .relocating copier := by
          intro relocates
          rcases phase with phase | phase <;> cases phase.symm.trans relocates
        rw [seen_same notMoving, seen_same fun copier => mutated.phase ▸ notMoving copier]
        refine ⟨taken, .resting (mutated.phase ▸ phase) (mutated.secondMm.trans received) (mutated.gc.trans cached) ?_⟩
        exact resting.mutated mutated (taken.arcs resting.live.contexts resting.arcs)
    | marking tracing =>
        have later := tracing.mutator quiet calm taken
        have notMoving (copier : CopierActive) : state.phase ≠ .relocating copier := by
          intro relocates
          cases tracing.sees.marks.phase.symm.trans relocates
        have stillNot (copier : CopierActive) : next.phase ≠ .relocating copier := by
          intro relocates
          cases later.sees.marks.phase.symm.trans relocates
        rw [seen_same notMoving, seen_same stillNot]
        exact ⟨taken, .marking later⟩
    | relocating relocating queue cached resting =>
        obtain ⟨seenTaken, later⟩ := relocating.mutator calm.described quiet taken
        have mutated := resting.live.mutates seenDescribed quiet seenTaken
        refine ⟨seenTaken, .relocating later ?_ ?_ ?_⟩
        · simpa using mutated.secondMm.trans (by simpa using queue)
        · simpa using mutated.gc.trans (by simpa using cached)
        · exact resting.mutated mutated (seenTaken.arcs resting.live.contexts resting.arcs)
    | cleared phase queue cached resting =>
        have mutated := resting.live.mutates calm.described quiet taken
        have notMoving (copier : CopierActive) : state.phase ≠ .relocating copier := by
          intro relocates
          cases phase.symm.trans relocates
        rw [seen_same notMoving, seen_same fun copier => mutated.phase ▸ notMoving copier]
        refine ⟨taken, .cleared (mutated.phase.trans phase) (mutated.secondMm.trans queue) (mutated.gc.trans cached) ?_⟩
        exact resting.mutated mutated (taken.arcs resting.live.contexts resting.arcs)
  obtain ⟨_, asked, performed⟩ := sound.live.performs sound.apart seenDescribed seenTaken quiet
  exact ⟨_, after, .asked asked performed⟩

/-- A request that keeps the objects. -/
theorem Sound.retyped (sound : Sound manager state objects) {types : Types}
    (kept : manager.KeepsObjects state.shared.types types) :
    Sound manager (state.withTypes types) objects ∧
      Carried manager (state.seen manager) ((state.withTypes types).seen manager) objects id := by
  obtain ⟨after, same⟩ : Sound manager (state.withTypes types) objects ∧
      (state.withTypes types).seen manager = (state.seen manager).withTypes types := by
    cases sound with
    | resting phase received cached resting =>
        have notMoving (copier : CopierActive) : state.phase ≠ .relocating copier := by
          intro relocates
          rcases phase with phase | phase <;> cases phase.symm.trans relocates
        have later : (state.withTypes types).seen manager = state.withTypes types := seen_same notMoving
        rw [later, seen_same notMoving]
        exact ⟨.resting phase received cached (resting.retyped kept.shapes), rfl⟩
    | marking tracing =>
        have notMoving (copier : CopierActive) : state.phase ≠ .relocating copier := by
          intro relocates
          cases tracing.sees.marks.phase.symm.trans relocates
        have later : (state.withTypes types).seen manager = state.withTypes types := seen_same notMoving
        rw [later, seen_same notMoving]
        exact ⟨.marking (tracing.retyped kept.shapes), rfl⟩
    | relocating relocating queue cached resting =>
        obtain ⟨later, same⟩ := relocating.retyped kept
        refine ⟨.relocating later queue cached ?_, same⟩
        rw [same]
        exact resting.retyped (by simpa using kept.shapes)
    | cleared phase queue cached resting =>
        have notMoving (copier : CopierActive) : state.phase ≠ .relocating copier := by
          intro relocates
          cases phase.symm.trans relocates
        have later : (state.withTypes types).seen manager = state.withTypes types := seen_same notMoving
        rw [later, seen_same notMoving]
        exact ⟨.cleared phase queue cached (resting.retyped kept.shapes), rfl⟩
  refine ⟨after, ?_⟩
  rw [same]
  refine sound.live.stays sound.apart.nonnull (fun _ => rfl) ?_
  intro obj member size slots shape
  rw [seen_shared] at shape
  exact ⟨kept.shapes _ _ _ _ shape, ⟨rfl, fun _ _ => rfl⟩⟩

end Steps

end State.System

end UwUGC
