import UwUGC.State.LiveHeap

/-! What a mutator leaves of the objects, whatever it does: no object goes, no header changes,
and an allocation adds one. -/

set_option autoImplicit false

namespace UwUGC.State.System

open Gc

variable {Types Request Thread : Type}

/-- The object that a step allocates, if any. -/
def allocated (manager : TypeManager Types) (state : System Types Thread) : Action Request Thread → List Nat
  | .mutator thread (.alloc ty extraBytes _ _) =>
      match state.shared.contexts.own thread with
      | none => []
      | some context =>
          match (state.mutator context).allocFast manager ty extraBytes with
          | .ok (some ptr, _) => [ptr]
          | _ => []
  | _ => []

/-- The objects behind a step of a mutator, with those that are new. -/
structure Mutated (manager : TypeManager Types) (state next : System Types Thread) (objects added : List Nat) : Prop where
  live : Live manager next (added ++ objects)
  phase : next.phase = state.phase
  gc : next.gc = state.gc
  secondMm : next.shared.secondMm = state.shared.secondMm
  markTrueBit : next.shared.markTrueBit = state.shared.markTrueBit
  types : next.shared.types = state.shared.types
  base : next.shared.mm.baseAddr = state.shared.mm.baseAddr
  nrPages : next.shared.mm.nrPages = state.shared.mm.nrPages
  pages : ∀ {idx page}, state.shared.mm.slot idx = some page →
    ∃ later, next.shared.mm.slot idx = some later ∧ later.range = page.range
  metadata : ∀ obj ∈ objects, next.memory.metadata obj = state.memory.metadata obj
  sizes : ∀ obj ∈ objects,
    manager.sizeOf state.shared.types next.memory obj = manager.sizeOf state.shared.types state.memory obj
  born : ∀ obj ∈ added, (next.memory.metadata obj).isMarked = state.shared.markTrueBit.not
  frame : ∀ address, ¬ state.shared.mm.space.Contains address → next.memory address = state.memory address

variable {manager : TypeManager Types} {state next : System Types Thread} {objects added : List Nat} {arc : Nat}
  {context : ContextShared} {change : Request → Types → Except Panic Types}

theorem Mutated.space (mutated : Mutated manager state next objects added) : next.shared.mm.space = state.shared.mm.space := by
  rw [PageTable.space, mutated.base, mutated.nrPages]
  rfl

theorem Live.in_space (live : Live manager state objects) {obj : Nat} (member : obj ∈ objects) :
    (manager.range state.shared.types state.memory obj).Within state.shared.mm.space := by
  obtain ⟨idx, page, found, within⟩ := live.held obj member
  exact (within.trans (PageTable.usedRange_within live.placed found)).trans (PageTable.page_within live.placed found)

theorem Live.mutates_contexts (live : Live manager state objects) {contexts : Contexts Thread}
    (consistent : contexts.Consistent) (reached : ∀ ptr ∈ contexts.pointers, state.Reaches manager ptr) :
    Mutated manager state (state.withContexts contexts) objects [] where
  live := (live.withContexts consistent reached).1
  phase := rfl
  gc := rfl
  secondMm := rfl
  markTrueBit := rfl
  types := rfl
  base := rfl
  nrPages := rfl
  pages := fun found => ⟨_, found, rfl⟩
  metadata := fun _ _ => rfl
  sizes := fun _ _ => rfl
  born := nofun
  frame := fun _ _ => rfl

theorem Live.mutates_store (live : Live manager state objects) {obj size slot value : Nat}
    {slots : List Nat} (member : obj ∈ objects)
    (shape : manager.Shape state.shared.types state.memory obj size slots) (slotted : slot ∈ slots)
    (reached : value ≠ 0 → state.Reaches manager value) :
    Mutated manager state (state.withMemory (TypeManager.stored state.memory obj slot value)) objects [] where
  live := (live.store member shape slotted reached).1
  phase := rfl
  gc := rfl
  secondMm := rfl
  markTrueBit := rfl
  types := rfl
  base := rfl
  nrPages := rfl
  pages := fun found => ⟨_, found, rfl⟩
  metadata := fun other otherMember => live.heap.stored_metadata member shape slotted otherMember
  sizes := fun other otherMember => live.heap.stored_size member shape slotted otherMember
  born := nofun
  frame := by
    intro address outside
    apply Function.update_of_ne
    rintro rfl
    have inSpace := live.in_space member
    have inside := shape.slot_within slotted
    rw [shape.range_eq] at inSpace
    apply outside
    apply inSpace.contains
    simp only [Span.Contains, Span.stop]
    omega

theorem Live.mutates_alloc (live : Live manager state objects) {contexts : Contexts Thread}
    {mm : PageTable} {memory : Memory} {ptr idx size : Nat}
    (new : NewObject manager state objects contexts mm memory ptr idx size) :
    Mutated manager state (state.withObject contexts mm memory) objects [ptr] where
  live := (live.alloc new).1
  phase := rfl
  gc := rfl
  secondMm := rfl
  markTrueBit := rfl
  types := rfl
  base := new.base
  nrPages := new.nrPages
  pages := by
    intro idx page found
    obtain ⟨later, there, same, _⟩ := new.pages found
    exact ⟨later, there, same⟩
  metadata := fun other member => live.heap.beside_metadata new.agrees member
  sizes := fun other member => live.heap.same_size (live.heap.beside_bodies new.agrees) member
  born := by
    intro obj member
    rw [List.mem_singleton.mp member]
    exact new.marked
  frame := by
    intro address outside
    apply new.frame
    rwa [PageTable.space, new.base, new.nrPages]

theorem Live.operates (live : Live manager state objects) {thread : Thread}
    {action : MutatorAction Request} (described : action.Described manager state.shared.types)
    (quiet : ∀ request, action ≠ .request request)
    (own : state.shared.contexts.live thread = some arc) (found : state.shared.contexts.shared[arc]? = some context)
    (operates : Operates manager change state arc context action next) :
    Mutated manager state next objects (state.allocated manager (.mutator thread action)) := by
  have owned : state.shared.contexts.own thread = some context := by
    rw [Contexts.own, own]
    exact found
  have consistent (final : ContextShared) : (state.shared.contexts.setShared arc final).Consistent :=
    live.contexts.same Contexts.sameMap_setShared
  cases operates with
  | full requested served =>
      obtain ⟨_, step⟩ := Mm.Context.allocates_of_returned live.placed.indexed served
      have granted : (state.mutator context).mmContext.allocFromPageTable (state.mutator context).mm _ = _ := served
      simp only [allocated, owned, Mutator.allocFast, requested, granted, bind, Except.bind]
      rw [step.none_unchanged]
      refine live.mutates_contexts (consistent _) ?_
      intro ptr pointed
      rcases Contexts.pointers_setShared found pointed with old | same
      · exact reached_root old
      · exact live.own_reached own found same
  | alloc allocated =>
      obtain ⟨size, new⟩ := allocated.newObject described live own found
      have granted : (state.mutator context).mmContext.allocFromPageTable (state.mutator context).mm _ = _ := allocated.served
      simp only [System.allocated, owned, Mutator.allocFast, allocated.requested, granted, bind, Except.bind]
      exact live.mutates_alloc new
  | load read held =>
      refine live.mutates_contexts (consistent _) ?_
      intro ptr pointed
      exact live.hold_reached own found held (fun nonnull => live.load_reached own found read nonnull) pointed
  | store there read =>
      obtain ⟨obj, size, slots, reached, shape, slotted, rfl⟩ := live.field_eq own found there
      refine live.mutates_store (live.reached_mem reached) shape slotted ?_
      exact fun nonnull => live.held_reached own found read nonnull
  | assign read held =>
      refine live.mutates_contexts (consistent _) ?_
      intro ptr pointed
      exact live.hold_reached own found held (fun nonnull => live.held_reached own found read nonnull) pointed
  | request => exact absurd rfl (quiet _)

theorem Live.mutates [DecidableEq Thread] (live : Live manager state objects) {thread : Thread}
    {action : MutatorAction Request} (described : action.Described manager state.shared.types)
    (quiet : ∀ request, action ≠ .request request)
    (taken : Steps manager change state (.mutator thread action) next) :
    Mutated manager state next objects (state.allocated manager (.mutator thread action)) := by
  cases taken with
  | newContext made =>
      refine live.mutates_contexts (live.contexts.newContext made) ?_
      intro ptr pointed
      exact reached_root (live.contexts.pointers_newContext made pointed)
  | dropContext dropped =>
      refine live.mutates_contexts (live.contexts.dropContext dropped) ?_
      obtain ⟨_, rfl⟩ := Contexts.dropContext_eq_some dropped
      exact fun ptr pointed => reached_root pointed
  | operate own found operates => exact live.operates described quiet own found operates

end UwUGC.State.System
