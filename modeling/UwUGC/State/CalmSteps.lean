import UwUGC.State.HeapStore
import UwUGC.State.SpaceSwap

/-! What a step of the system can do to the heap that the mutators see, whatever phase the
collector is in: a mutator changes it as it asks, and the collector carries it along. -/

set_option autoImplicit false

namespace UwUGC

open Gc

namespace TypeManager

/-- The same object at its place, with its pointers led along. -/
structure SameObject (memory later : Memory) (place : Nat → Nat) (obj size : Nat) (slots : List Nat) : Prop where
  payload : (later.metadata (place obj)).payload = (memory.metadata obj).payload
  words : ∀ offset, metadataSize + offset < size → offset ∉ slots → later.data (place obj) offset = memory.data obj offset
  pointers : ∀ slot ∈ slots, later.data (place obj) slot =
    if memory.data obj slot = 0 then 0 else place (memory.data obj slot)

end TypeManager

namespace State.System

variable {Types Request Thread : Type} {manager : TypeManager Types} {state next : System Types Thread}
  {objects all : List Nat} {place : Nat → Nat}

/-- The objects of one state in another, and with them all roots. -/
structure Carried (manager : TypeManager Types) (state next : System Types Thread) (objects : List Nat)
    (place : Nat → Nat) : Prop where
  roots : ∀ thread, (next.shared.contexts.own thread).map ContextShared.rootSet =
    (state.shared.contexts.own thread).map fun context => context.rootSet.map (Option.map place)
  rooted : ∀ thread context, state.shared.contexts.own thread = some context →
    ∀ ptr ∈ context.rootSet.iterPointers, ptr ∈ objects
  closed : ∀ obj ∈ objects, ∀ child ∈ manager.children state.shared.types state.memory obj, child ∈ objects
  object : ∀ obj ∈ objects, ∃ size slots, manager.Shape state.shared.types state.memory obj size slots ∧
    manager.Shape next.shared.types next.memory (place obj) size slots ∧
    TypeManager.SameObject state.memory next.memory place obj size slots
  nonnull : ∀ obj ∈ objects, obj ≠ 0 ∧ place obj ≠ 0
  injective : ∀ left ∈ objects, ∀ right ∈ objects, place left = place right → left = right

/-- The mutators cannot tell a heap from where it was carried to. -/
theorem Carried.similar (carried : Carried manager state next objects place) (members : ∀ obj ∈ objects, obj ∈ all) :
    ObjectStore.Similar (fun obj moved => obj ∈ objects ∧ moved = place obj) (state.heapStore manager all)
      (next.heapStore manager (objects.map place)) where
  roots := by
    intro thread
    have roots := carried.roots thread
    simp only [heapStore, roots]
    cases owned : state.shared.contexts.own thread with
    | none => exact .none
    | some context =>
        refine .some fun slot => ?_
        rw [List.getElem?_map]
        cases entry : context.rootSet[slot]? with
        | none => exact .none
        | some held =>
            cases held with
            | none => exact .some .none
            | some ptr =>
                have pointed := RootSet.mem_iterPointers.mpr (List.mem_of_getElem? entry)
                exact .some (.some ⟨carried.rooted thread context owned ptr pointed, rfl⟩)
  object := by
    rintro obj _ ⟨member, rfl⟩
    obtain ⟨size, slots, before, behind, same⟩ := carried.object obj member
    have closed := carried.closed obj member
    rw [before.children_eq] at closed
    refine ⟨_, _, if_pos (members obj member), if_pos (List.mem_map_of_mem member), ?_⟩
    rw [before.objectAt_eq, behind.objectAt_eq]
    constructor
    case kind => exact same.payload.symm
    case fields => rfl
    case size => rfl
    case word =>
      funext offset
      change (if _ then _ else _) = if _ then _ else _
      split
      · next inside => rw [same.words offset inside.1 inside.2]
      · rfl
    case pointer =>
      intro slot inside
      simp only [if_pos inside, same.pointers slot inside]
      by_cases null : state.memory.data obj slot = 0
      · rw [if_pos null, null]
        exact .none
      · have pointed : state.memory.data obj slot ∈ TypeManager.pointers state.memory obj slots :=
          List.mem_filter.mpr ⟨List.mem_map_of_mem inside, decide_eq_true null⟩
        have child := closed _ pointed
        rw [if_neg null, objectPtr, objectPtr, if_neg null, if_neg (carried.nonnull _ child).2]
        exact .some ⟨child, rfl⟩
  functional := by
    rintro obj _ _ ⟨_, rfl⟩ ⟨_, rfl⟩
    rfl
  injective := by
    rintro left right _ ⟨leftMember, rfl⟩ ⟨rightMember, same⟩
    exact carried.injective left leftMember right rightMember same

/-- What was carried to a place can be carried on from there. -/
theorem Carried.comp {last : System Types Thread} {further : Nat → Nat} (first : Carried manager state next objects place)
    (second : Carried manager next last (objects.map place) further) :
    Carried manager state last objects (further ∘ place) where
  roots := by
    intro thread
    rw [second.roots thread]
    have roots := first.roots thread
    cases owned : state.shared.contexts.own thread with
    | none =>
        rw [owned] at roots
        rw [Option.map_eq_none_iff.mp roots]
        rfl
    | some context =>
        rw [owned] at roots
        obtain ⟨moved, there, same⟩ := Option.map_eq_some_iff.mp roots
        rw [there, Option.map_some, Option.map_some, same, List.map_map, Option.map_comp_map]
  rooted := first.rooted
  closed := first.closed
  object := by
    intro obj member
    obtain ⟨_, _, before, between, same⟩ := first.object obj member
    obtain ⟨size, slots, again, behind, sameThen⟩ := second.object (place obj) (List.mem_map_of_mem member)
    obtain ⟨rfl, rfl⟩ := between.unique again
    refine ⟨size, slots, before, behind, sameThen.payload.trans same.payload, ?_, ?_⟩
    · exact fun offset inside outside => (sameThen.words offset inside outside).trans (same.words offset inside outside)
    · intro slot inside
      have closed := first.closed obj member
      rw [before.children_eq] at closed
      rw [Function.comp_apply, sameThen.pointers slot inside, same.pointers slot inside]
      by_cases null : state.memory.data obj slot = 0
      · simp [null]
      · have pointed : state.memory.data obj slot ∈ TypeManager.pointers state.memory obj slots :=
          List.mem_filter.mpr ⟨List.mem_map_of_mem inside, decide_eq_true null⟩
        rw [if_neg null, if_neg (first.nonnull _ (closed _ pointed)).2, if_neg null, Function.comp_apply]
  nonnull := fun obj member => ⟨(first.nonnull obj member).1, (second.nonnull _ (List.mem_map_of_mem member)).2⟩
  injective := by
    intro left leftMember right rightMember same
    refine first.injective left leftMember right rightMember ?_
    exact second.injective _ (List.mem_map_of_mem leftMember) _ (List.mem_map_of_mem rightMember) same

/-- Nothing is moved, and no object changes but in its mark. -/
theorem Live.stays (live : Live manager state objects) (nonnull : state.shared.mm.baseAddr ≠ 0)
    (roots : ∀ thread, (next.shared.contexts.own thread).map ContextShared.rootSet =
      (state.shared.contexts.own thread).map ContextShared.rootSet)
    (bodies : ∀ obj ∈ objects, ∀ size slots, manager.Shape state.shared.types state.memory obj size slots →
      manager.Shape next.shared.types next.memory obj size slots ∧ TypeManager.SameBody state.memory next.memory obj size) :
    Carried manager state next objects id where
  roots := by
    intro thread
    rw [roots thread]
    congr 1
    funext context
    simp
  rooted := by
    intro thread context owned ptr pointed
    obtain ⟨arc, own, found⟩ := Option.bind_eq_some_iff.mp owned
    exact live.reached_mem (live.own_reached own found pointed)
  closed := live.heap.closed
  object := by
    intro obj member
    obtain ⟨size, slots, shape⟩ := live.heap.shaped obj member
    obtain ⟨later, body⟩ := bodies obj member size slots shape
    refine ⟨size, slots, shape, later, body.payload, fun offset inside _ => body.data offset inside, ?_⟩
    intro slot inside
    have within := shape.slot_within inside
    change next.memory.data obj slot = _
    rw [body.data slot (by omega)]
    split
    · next null => exact null
    · rfl
  nonnull := fun obj member => ⟨live.nonnull nonnull member, live.nonnull nonnull member⟩
  injective := fun _ _ _ _ same => same

section Types

variable {types : Types}

def withTypes (state : System Types Thread) (types : Types) : System Types Thread :=
  { state with shared := { state.shared with types } }

theorem Live.retyped_object (live : Live manager state objects) (kept : manager.KeepsShapes state.shared.types types)
    {obj : Nat} (member : obj ∈ objects) :
    manager.sizeOf types state.memory obj = manager.sizeOf state.shared.types state.memory obj ∧
      manager.children types state.memory obj = manager.children state.shared.types state.memory obj := by
  obtain ⟨size, slots, shape⟩ := live.heap.shaped obj member
  have later := kept _ _ _ _ shape
  exact ⟨later.sizeOf_eq.trans shape.sizeOf_eq.symm, later.children_eq.trans shape.children_eq.symm⟩

theorem Live.retyped (live : Live manager state objects) (kept : manager.KeepsShapes state.shared.types types) :
    Live manager (state.withTypes types) objects where
  contexts := live.contexts
  heap := live.heap.restrict (fun _ member => member) live.heap.closed fun obj _ size slots => kept _ _ _ _
  rooted := live.rooted
  placed := live.placed
  held := by
    intro obj member
    change state.shared.mm.Holds ⟨obj, manager.sizeOf types state.memory obj⟩
    rw [(live.retyped_object kept member).1]
    exact live.held obj member

end Types

/-- What is at rest between the steps that stop the world. -/
structure Resting (manager : TypeManager Types) (state : System Types Thread) (objects : List Nat)
    (second : PageTable) : Prop where
  live : Live manager state objects
  unmarked : ∀ obj ∈ objects, (state.memory.metadata obj).isMarked = state.shared.markTrueBit.not
  spaces : Spaces state.shared.mm second
  arcs : (state.shared.contexts.entries.map Prod.snd).Nodup

theorem Resting.apart [DecidableEq Thread] {second : PageTable} (resting : Resting manager state objects second) : state.Apart :=
  ⟨resting.spaces.nonnull, resting.arcs⟩

theorem Resting.mutated {second : PageTable} {added : List Nat} (resting : Resting manager state objects second)
    (mutated : Mutated manager state next objects added) (arcs : (next.shared.contexts.entries.map Prod.snd).Nodup) :
    Resting manager next (added ++ objects) second where
  live := mutated.live
  unmarked := by
    intro obj member
    rw [mutated.markTrueBit]
    rcases List.mem_append.mp member with new | old
    · exact mutated.born obj new
    · rw [mutated.metadata obj old]
      exact resting.unmarked obj old
  spaces := resting.spaces.same mutated.base mutated.nrPages
  arcs := arcs

theorem Resting.retyped {second : PageTable} {types : Types} (resting : Resting manager state objects second)
    (kept : manager.KeepsShapes state.shared.types types) : Resting manager (state.withTypes types) objects second :=
  ⟨resting.live.retyped kept, resting.unmarked, resting.spaces, resting.arcs⟩

/-- The collector writes where no object lies, or what it writes is what was there. -/
theorem Resting.rewritten {second : PageTable} (resting : Resting manager state objects second)
    (shared : next.shared.mm = state.shared.mm ∧ next.shared.contexts = state.shared.contexts ∧
      next.shared.types = state.shared.types ∧ next.shared.markTrueBit = state.shared.markTrueBit)
    (agrees : ∀ obj ∈ objects, state.memory.Agrees next.memory (manager.range state.shared.types state.memory obj)) :
    Resting manager next objects second ∧ Carried manager state next objects id := by
  obtain ⟨mm, contexts, types, bit⟩ := shared
  have bodies := resting.live.heap.beside_bodies agrees
  obtain ⟨live, _⟩ := resting.live.sameBodies bodies state.phase
  refine ⟨⟨?_, ?_, mm ▸ resting.spaces, contexts ▸ resting.arcs⟩, ?_⟩
  · refine ⟨contexts ▸ live.contexts, types ▸ live.heap, contexts ▸ live.rooted, mm ▸ live.placed, ?_⟩
    rw [mm, types]
    exact live.held
  · intro obj member
    rw [resting.live.heap.beside_metadata agrees member, bit]
    exact resting.unmarked obj member
  · refine resting.live.stays resting.spaces.nonnull (fun _ => by rw [contexts]) ?_
    intro obj member size slots shape
    have body := bodies obj member
    rw [shape.sizeOf_eq] at body
    rw [types]
    exact ⟨shape.same_body body, body⟩

end State.System

end UwUGC
