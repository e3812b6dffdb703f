import UwUGC.Object.HeapEdits
import UwUGC.State.ContextsUpdates
import UwUGC.Gc.CycleProperties

/-! The objects of the space that the mutators use, while they read, overwrite and allocate.
Nothing is moved meanwhile, and an object that is no longer reached stays among them. -/

set_option autoImplicit false

namespace UwUGC.State

open Gc

namespace Contexts

variable {Thread : Type} {contexts : Contexts Thread} {arc ptr : Nat} {context final : ContextShared}

/-- What the root sets of the map hold. -/
def pointers (contexts : Contexts Thread) : List Nat := contexts.rootSets.flatMap RootSet.iterPointers

theorem mem_pointers : ptr ∈ contexts.pointers ↔
    ∃ entry ∈ contexts.entries, ∃ context, contexts.shared[entry.2]? = some context ∧ ptr ∈ context.rootSet.iterPointers := by
  simp only [pointers, rootSets, listed, List.mem_flatMap, List.mem_map, List.mem_filterMap]
  constructor
  · rintro ⟨_, ⟨context, ⟨entry, member, found⟩, rfl⟩, pointed⟩
    exact ⟨entry, member, context, found, pointed⟩
  · rintro ⟨entry, member, context, found, pointed⟩
    exact ⟨_, ⟨context, ⟨entry, member, found⟩, rfl⟩, pointed⟩

theorem Consistent.live_pointers (consistent : contexts.Consistent) {thread : Thread}
    (live : contexts.live thread = some arc) (found : contexts.shared[arc]? = some context)
    (pointed : ptr ∈ context.rootSet.iterPointers) : ptr ∈ contexts.pointers :=
  mem_pointers.mpr ⟨(thread, arc), consistent.kept thread arc live, context, found, pointed⟩

theorem pointers_setShared (found : contexts.shared[arc]? = some context)
    (pointed : ptr ∈ (contexts.setShared arc final).pointers) :
    ptr ∈ contexts.pointers ∨ ptr ∈ final.rootSet.iterPointers := by
  obtain ⟨entry, member, there, inShared, held⟩ := mem_pointers.mp pointed
  rw [shared_setShared found] at inShared
  split at inShared
  · cases inShared
    exact .inr held
  · exact .inl (mem_pointers.mpr ⟨entry, member, there, inShared, held⟩)

theorem Consistent.pointers_newContext [DecidableEq Thread] (consistent : contexts.Consistent) {next : Contexts Thread}
    {thread : Thread} {slots : Nat} (made : contexts.newContext thread (List.replicate slots none) = some next)
    (pointed : ptr ∈ next.pointers) : ptr ∈ contexts.pointers := by
  obtain ⟨entry, member, context, found, held⟩ := mem_pointers.mp pointed
  obtain ⟨_, _, shared, _⟩ := newContext_eq_some made
  rw [entries_newContext made] at member
  rw [shared] at found
  split at member
  · rw [member, List.getElem?_concat_length] at found
    cases found
    simp [RootSet.mem_iterPointers] at held
  · rw [List.getElem?_append_left (consistent.made entry.1 entry.2 member)] at found
    exact mem_pointers.mpr ⟨entry, member, context, found, held⟩

end Contexts

/-- Only types for which the manager keeps its contract are allocated. -/
def MutatorAction.Described {Types Request : Type} (manager : TypeManager Types) (types : Types) :
    MutatorAction Request → Prop
  | .alloc ty _ _ _ => manager.Describes types ty.toObjKind
  | _ => True

def Action.Described {Types Request Thread : Type} (manager : TypeManager Types) (types : Types) :
    Action Request Thread → Prop
  | .mutator _ action => action.Described manager types
  | .collector _ => True

theorem Action.described_pointerArrays {Request Thread : Type} (action : Action Request Thread) :
    action.Described TypeManager.pointerArrays () := by
  cases action with
  | collector => trivial
  | mutator _ action =>
      cases action with
      | alloc => exact TypeManager.pointerArrays_describes _
      | _ => trivial

namespace System

variable {Types Request Thread : Type} {manager : TypeManager Types} {state next : System Types Thread}
  {objects : List Nat} {arc : Nat} {context final : ContextShared}

/-- What the mutators can still get at. -/
def Reaches (manager : TypeManager Types) (state : System Types Thread) : Nat → Prop :=
  manager.Reachable state.shared.types state.memory state.shared.contexts.rootSets

structure Live (manager : TypeManager Types) (state : System Types Thread) (objects : List Nat) : Prop where
  contexts : state.shared.contexts.Consistent
  heap : manager.Heap state.shared.types state.memory objects
  rooted : ∀ ptr ∈ state.shared.contexts.pointers, ptr ∈ objects
  placed : state.shared.mm.Placed
  held : ∀ obj ∈ objects, state.shared.mm.Holds (manager.range state.shared.types state.memory obj)

theorem Live.reached_mem (live : Live manager state objects) {obj : Nat} (reached : state.Reaches manager obj) :
    obj ∈ objects :=
  live.heap.reachable_mem live.rooted reached

theorem reached_root {ptr : Nat} (pointed : ptr ∈ state.shared.contexts.pointers) : state.Reaches manager ptr :=
  GraphSearch.Reachable.root pointed

theorem mem_iterPointers_set {roots : RootSet} {slot ptr pointed : Nat}
    (member : pointed ∈ RootSet.iterPointers (roots.set slot (objectPtr ptr))) :
    pointed ∈ roots.iterPointers ∨ pointed = ptr ∧ ptr ≠ 0 := by
  rw [RootSet.mem_iterPointers] at member ⊢
  rcases List.mem_or_eq_of_mem_set member with old | new
  · exact .inl old
  · right
    unfold objectPtr at new
    split at new
    · cases new
    · next nonnull =>
        cases new
        exact ⟨rfl, nonnull⟩

section Roots

variable (live : Live manager state objects) {thread : Thread} (own : state.shared.contexts.live thread = some arc)
  (found : state.shared.contexts.shared[arc]? = some context)

include live own found

theorem Live.own_reached {ptr : Nat} (pointed : ptr ∈ context.rootSet.iterPointers) : state.Reaches manager ptr :=
  reached_root (live.contexts.live_pointers own found pointed)

theorem Live.held_reached {from? : Option Nat} {value : Nat} (read : System.held context from? = some value)
    (nonnull : value ≠ 0) : state.Reaches manager value := by
  apply live.own_reached own found
  rw [RootSet.mem_iterPointers]
  cases from? with
  | none =>
      cases read
      exact absurd rfl nonnull
  | some slot =>
      obtain ⟨entry, inSlot, rfl⟩ := Option.map_eq_some_iff.mp read
      cases entry with
      | none => exact absurd rfl nonnull
      | some ptr => exact List.mem_of_getElem? inSlot

/-- A slot that takes a pointer to something that is reached. -/
theorem Live.hold_reached {slot ptr : Nat} (taken : hold context slot ptr = some final)
    (reached : ptr ≠ 0 → state.Reaches manager ptr) {pointed : Nat}
    (member : pointed ∈ (state.shared.contexts.setShared arc final).pointers) : state.Reaches manager pointed := by
  obtain ⟨_, rfl⟩ := hold_eq_some taken
  rcases Contexts.pointers_setShared found member with old | new
  · exact reached_root old
  · rcases mem_iterPointers_set new with old | ⟨rfl, nonnull⟩
    · exact live.own_reached own found old
    · exact reached nonnull

/-- The object and the slot behind a field. -/
theorem Live.field_eq {slot field address : Nat} (read : state.field manager context slot field = some address) :
    ∃ obj size slots, state.Reaches manager obj ∧
      manager.Shape state.shared.types state.memory obj size slots ∧ field ∈ slots ∧
      address = obj + metadataSize + field := by
  obtain ⟨obj, typeId, slots, inSlot, _, payload, slotted, inside, _, rfl⟩ := field_eq_some read
  have reached := live.own_reached own found (RootSet.mem_iterPointers.mpr (List.mem_of_getElem? inSlot))
  obtain ⟨size, others, shape⟩ := live.heap.shaped obj (live.reached_mem reached)
  have same : others = slots := by simpa [slotted] using (shape.slotted payload).symm
  exact ⟨obj, size, slots, reached, same ▸ shape, inside, rfl⟩

theorem Live.load_reached {slot field address : Nat} (read : state.field manager context slot field = some address)
    (nonnull : state.memory address ≠ 0) : state.Reaches manager (state.memory address) := by
  obtain ⟨obj, size, slots, reached, shape, inside, rfl⟩ := live.field_eq own found read
  apply reached.child
  rw [shape.children_eq, TypeManager.pointers, List.mem_filter]
  exact ⟨List.mem_map_of_mem inside, decide_eq_true nonnull⟩

end Roots

theorem Live.withContexts (live : Live manager state objects) {contexts : Contexts Thread}
    (consistent : contexts.Consistent) (reached : ∀ ptr ∈ contexts.pointers, state.Reaches manager ptr) :
    Live manager (state.withContexts contexts) objects ∧
      ∀ obj, (state.withContexts contexts).Reaches manager obj → state.Reaches manager obj := by
  refine ⟨⟨consistent, live.heap, fun ptr pointed => live.reached_mem (reached ptr pointed), live.placed, live.held⟩, ?_⟩
  intro obj path
  exact GraphSearch.Reachable.closed path reached fun parent child before pointed => before.child pointed

theorem Live.sameBodies (live : Live manager state objects) {memory : Memory}
    (bodies : manager.SameBodies state.shared.types state.memory memory objects) (phase : Phase) :
    Live manager { state with memory, phase } objects ∧
      ∀ obj, Reaches manager { state with memory, phase } obj → state.Reaches manager obj := by
  constructor
  · refine ⟨live.contexts, live.heap.same_heap bodies, live.rooted, live.placed, ?_⟩
    intro obj member
    change state.shared.mm.Holds ⟨obj, manager.sizeOf state.shared.types memory obj⟩
    rw [live.heap.same_size bodies member]
    exact live.held obj member
  · intro obj path
    apply GraphSearch.Reachable.closed path
    · exact fun root pointed => reached_root pointed
    · intro parent child before pointed
      change child ∈ manager.children state.shared.types memory parent at pointed
      rw [live.heap.same_children bodies (live.reached_mem before)] at pointed
      exact before.child pointed

section Store

variable {obj size slot value : Nat} {slots : List Nat}

def withMemory (state : System Types Thread) (memory : Memory) : System Types Thread := { state with memory }

theorem Live.store (live : Live manager state objects) (member : obj ∈ objects)
    (shape : manager.Shape state.shared.types state.memory obj size slots) (slotted : slot ∈ slots)
    (reached : value ≠ 0 → state.Reaches manager value) :
    Live manager (state.withMemory (TypeManager.stored state.memory obj slot value)) objects ∧
      ∀ other, (state.withMemory (TypeManager.stored state.memory obj slot value)).Reaches manager other →
        state.Reaches manager other := by
  constructor
  · constructor
    case contexts => exact live.contexts
    case heap => exact live.heap.store member shape slotted fun nonnull => live.reached_mem (reached nonnull)
    case rooted => exact live.rooted
    case placed => exact live.placed
    case held =>
      intro other otherMember
      change state.shared.mm.Holds ⟨other, _⟩
      rw [withMemory, live.heap.stored_size member shape slotted otherMember]
      exact live.held other otherMember
  · intro other path
    apply GraphSearch.Reachable.closed path
    · exact fun root pointed => reached_root pointed
    · intro parent child before pointed
      rcases live.heap.stored_pointed member shape slotted (live.reached_mem before) pointed with ⟨rfl, rfl⟩ | old
      · apply reached
        change child ∈ manager.children state.shared.types (TypeManager.stored state.memory parent slot child) parent at pointed
        rw [(shape.stored slotted).children_eq, TypeManager.pointers, List.mem_filter] at pointed
        exact of_decide_eq_true pointed.2
      · exact before.child old

end Store

/-- An object that was allocated apart from the others, in the page at an index. -/
structure NewObject (manager : TypeManager Types) (state : System Types Thread) (objects : List Nat)
    (contexts : Contexts Thread) (mm : PageTable) (memory : Memory) (ptr idx size : Nat) : Prop where
  shaped : ∃ slots, manager.Shape state.shared.types memory ptr size slots
  agrees : ∀ obj ∈ objects, state.memory.Agrees memory (manager.range state.shared.types state.memory obj)
  apart : ∀ obj ∈ objects, (manager.range state.shared.types state.memory obj).Separate ⟨ptr, size⟩
  pointed : ∀ child ∈ manager.children state.shared.types memory ptr, state.Reaches manager child
  marked : (memory.metadata ptr).isMarked = state.shared.markTrueBit.not
  placed : mm.Placed
  base : mm.baseAddr = state.shared.mm.baseAddr
  nrPages : mm.nrPages = state.shared.mm.nrPages
  pages : ∀ {other page}, state.shared.mm.slot other = some page →
    ∃ later, mm.slot other = some later ∧ later.range = page.range ∧ page.usedRange.Within later.usedRange
  frame : ∀ address, ¬ mm.space.Contains address → memory address = state.memory address
  served : ∃ page, mm.slot idx = some page ∧ (Span.mk ptr size).Within page.usedRange
  consistent : contexts.Consistent
  rooted : ∀ pointed ∈ contexts.pointers, pointed = ptr ∨ state.Reaches manager pointed

def withObject (state : System Types Thread) (contexts : Contexts Thread) (mm : PageTable) (memory : Memory) :
    System Types Thread :=
  { state with memory, shared := { state.shared with contexts, mm } }

section Alloc

variable {contexts : Contexts Thread} {mm : PageTable} {memory : Memory} {ptr idx size : Nat}

theorem NewObject.fresh (new : NewObject manager state objects contexts mm memory ptr idx size)
    (live : Live manager state objects) : ptr ∉ objects := by
  intro member
  obtain ⟨slots, shape⟩ := new.shaped
  have header := shape.header_le
  have other := live.heap.size_pos member
  have apart := new.apart ptr member
  simp only [metadataSize] at header other
  simp only [Span.Separate, Span.stop, TypeManager.range] at apart
  omega

theorem NewObject.keeps (new : NewObject manager state objects contexts mm memory ptr idx size) {span : Span}
    (held : state.shared.mm.Holds span) : mm.Holds span := by
  obtain ⟨other, page, found, within⟩ := held
  obtain ⟨later, there, _, grown⟩ := new.pages found
  exact ⟨other, later, there, within.trans grown⟩

theorem Live.alloc (live : Live manager state objects)
    (new : NewObject manager state objects contexts mm memory ptr idx size) :
    Live manager (state.withObject contexts mm memory) (ptr :: objects) ∧
      ∀ obj, (state.withObject contexts mm memory).Reaches manager obj → obj = ptr ∨ state.Reaches manager obj := by
  obtain ⟨slots, shape⟩ := new.shaped
  have bodies := live.heap.beside_bodies new.agrees
  constructor
  · constructor
    case contexts => exact new.consistent
    case heap => exact live.heap.beside new.agrees shape new.apart fun child pointed => live.reached_mem (new.pointed child pointed)
    case rooted =>
      intro pointed member
      rcases new.rooted pointed member with rfl | reached
      · exact List.mem_cons_self
      · exact List.mem_cons_of_mem _ (live.reached_mem reached)
    case placed => exact new.placed
    case held =>
      intro obj member
      rcases List.mem_cons.mp member with rfl | before
      · obtain ⟨page, found, within⟩ := new.served
        change mm.Holds (manager.range state.shared.types memory obj)
        rw [shape.range_eq]
        exact ⟨idx, page, found, within⟩
      · have kept := new.keeps (live.held obj before)
        change mm.Holds ⟨obj, manager.sizeOf state.shared.types memory obj⟩
        rw [live.heap.same_size bodies before]
        exact kept
  · intro obj path
    apply GraphSearch.Reachable.closed path
    · exact new.rooted
    · intro parent child before pointed
      right
      rcases before with rfl | reached
      · exact new.pointed child pointed
      · change child ∈ manager.children state.shared.types memory parent at pointed
        rw [live.heap.same_children bodies (live.reached_mem reached)] at pointed
        exact reached.child pointed

end Alloc

theorem writeWords_outside {memory : Memory} {words : List Nat} {ptr address : Nat}
    (outside : ¬ (Span.mk ptr (8 * words.length)).Contains address) :
    writeWords memory ptr words address = memory address := by
  induction words generalizing memory ptr with
  | nil => rfl
  | cons word rest ih =>
      simp only [Span.Contains, Span.stop, List.length_cons] at outside
      rw [writeWords, ih]
      · apply Function.update_of_ne
        omega
      · simp only [Span.Contains, Span.stop]
        omega

theorem writeWords_inside {memory : Memory} {words : List Nat} {ptr i word : Nat} (found : words[i]? = some word) :
    writeWords memory ptr words (ptr + 8 * i) = word := by
  induction words generalizing memory ptr i with
  | nil => cases found
  | cons first rest ih =>
      cases i with
      | zero =>
          cases found
          rw [writeWords, writeWords_outside]
          · exact Function.update_self ..
          · simp only [Span.Contains, Span.stop]
            omega
      | succ i =>
          have place : ptr + 8 + 8 * i = ptr + 8 * (i + 1) := by omega
          rw [writeWords, ← place]
          exact ih found

theorem writeHeader_outside {memory : Memory} {header : Metadata} {ptr address : Nat}
    (outside : ¬ (Span.mk ptr metadataSize).Contains address) : memory.writeHeader ptr header address = memory address := by
  simp only [Span.Contains, Span.stop, metadataSize] at outside
  rw [Memory.writeHeader, Function.update_of_ne (by omega), Function.update_of_ne (by omega)]

section Allocated

variable {ty : AllocType} {extraBytes slot ptr page size : Nat} {init : List Nat} {mmContext : Mm.Context}
  {mm : PageTable} {memory : Memory}
  (allocated : Allocated manager state context ty extraBytes init slot mmContext mm ptr page size memory final)

include allocated

theorem Allocated.metadata : memory.metadata ptr =
    { isMarked := state.shared.markTrueBit.not, payload := ty.toObjKind, writeBarrierActivated := false } := by
  have header : memory.metadata ptr = ((state.mutator context).initObject ptr ty.toObjKind).metadata ptr := by
    rw [allocated.written]
    apply Memory.metadata_congr <;> apply writeWords_outside <;>
      simp only [Span.Contains, Span.stop, metadataSize] <;> omega
  rw [header, Mutator.initObject, Memory.metadata_writeHeader]
  rfl

/-- A new object of a kind that the manager describes has a shape. -/
theorem Allocated.shape {length : Nat} {pointed : List Nat} (described : manager.Describes state.shared.types ty.toObjKind)
    (sized : manager.getSize state.shared.types memory ptr = .ok length)
    (walked : manager.iterateGcPointers state.shared.types memory ptr = .ok pointed) :
    ∃ slots, manager.Shape state.shared.types memory ptr length slots := by
  refine TypeManager.Shape.of_walk ?_ sized walked
  rw [allocated.metadata]
  exact described

theorem Allocated.newObject {thread : Thread} (described : manager.Describes state.shared.types ty.toObjKind)
    (live : Live manager state objects) (own : state.shared.contexts.live thread = some arc)
    (found : state.shared.contexts.shared[arc]? = some context) :
    ∃ length, NewObject manager state objects (state.shared.contexts.setShared arc final) mm memory ptr page length := by
  obtain ⟨_, step⟩ := Mm.Context.allocates_of_returned live.placed.indexed allocated.served
  have positive := sizeClass_nrPages_pos size
  have placed := step.placed live.placed positive
  have outside {address : Nat} (outside : ¬ (Span.mk ptr size).Contains address) :
      memory address = state.memory address := by
    have room := allocated.room
    simp only [Span.Contains, Span.stop, metadataSize] at outside room
    rw [allocated.written, writeWords_outside, Mutator.initObject, writeHeader_outside]
    · rfl
    · simp only [Span.Contains, Span.stop, metadataSize]
      omega
    · simp only [Span.Contains, Span.stop, metadataSize]
      omega
  have apart (obj : Nat) (member : obj ∈ objects) :
      (manager.range state.shared.types state.memory obj).Separate ⟨ptr, size⟩ :=
    step.served_apart live.placed positive (live.held obj member)
  have shaped := allocated.shaped
  simp only [System.shaped] at shaped
  split at shaped
  · next length pointed sized walked =>
      simp only [Bool.and_eq_true, decide_eq_true_eq, List.all_eq_true] at shaped
      obtain ⟨slots, shape⟩ := allocated.shape described sized walked
      have inside : (Span.mk ptr length).Within ⟨ptr, size⟩ := ⟨Nat.le_refl _, Nat.add_le_add_left shaped.1 _⟩
      refine ⟨length, ?_⟩
      constructor
      case shaped => exact ⟨slots, shape⟩
      case agrees =>
        intro obj member address contained
        exact outside ((apart obj member).not_contains contained)
      case apart => exact fun obj member => (apart obj member).within (Span.Within.refl _) inside
      case pointed =>
        intro child childPointed
        rw [TypeManager.children, walked] at childPointed
        exact live.own_reached own found (shaped.2 child childPointed)
      case marked =>
        rw [allocated.metadata]
      case placed => exact placed
      case base => exact step.frame.1
      case nrPages => exact step.frame.2.1
      case pages =>
        intro other before inSlot
        obtain ⟨later, there, kind, start, _⟩ := step.keeps live.placed.indexed positive inSlot
        obtain ⟨grown, again, within⟩ := step.usedRange_keeps live.placed positive inSlot
        rw [there] at again
        cases again
        refine ⟨later, there, ?_, within⟩
        simp only [FlexPage.range, FlexPage.size, start, kind]
      case frame =>
        obtain ⟨there, inSlot, within⟩ := step.served live.placed positive
        have inTable := (within.trans (PageTable.usedRange_within placed inSlot)).trans (PageTable.page_within placed inSlot)
        exact fun address apart => outside fun inside => apart (inTable.contains inside)
      case served =>
        obtain ⟨there, inSlot, within⟩ := step.served live.placed positive
        exact ⟨there, inSlot, inside.trans within⟩
      case consistent => exact live.contexts.same Contexts.sameMap_setShared
      case rooted =>
        obtain ⟨_, rfl⟩ := hold_eq_some allocated.held
        intro pointed member
        rcases Contexts.pointers_setShared found member with old | new
        · exact .inr (reached_root old)
        · rcases mem_iterPointers_set new with old | ⟨same, _⟩
          · exact .inr (live.own_reached own found old)
          · exact .inl same
  · cases shaped

end Allocated

end System

end UwUGC.State
