import UwUGC.Lib.ObjectStore
import UwUGC.State.MutatorSteps

/-! The heap as a store of objects: what the mutators can tell of it. An object is named by its
address, has the kind of its header, and its words and pointers apart from each other. -/

set_option autoImplicit false

namespace UwUGC

abbrev HeapObject (Id : Type) := ObjectStore.Object MetadataEnum Nat Nat Id

abbrev HeapStore (Thread Id : Type) := ObjectStore Thread MetadataEnum Nat Nat Id

abbrev HeapDraft := ObjectStore.Draft MetadataEnum Nat Nat

abbrev HeapOp (Thread : Type) := ObjectStore.Op Thread MetadataEnum Nat Nat

namespace TypeManager

open Gc

variable {Types : Type} (manager : TypeManager Types) (types : Types) (memory : Memory)

def slotsOf (obj : Nat) : List Nat :=
  match (memory.metadata obj).payload with
  | .plainOldData _ => []
  | .notPlainOldData typeId =>
      match manager.iterateSlots types typeId (memory.data obj) with
      | .ok (some slots) => slots
      | _ => []

/-- The object at an address as the mutators know it. -/
def objectAt (obj : Nat) : HeapObject Nat where
  kind := (memory.metadata obj).payload
  size := manager.sizeOf types memory obj
  word := fun offset =>
    if metadataSize + offset < manager.sizeOf types memory obj ∧ offset ∉ manager.slotsOf types memory obj then
      some (memory.data obj offset)
    else none
  fields := manager.slotsOf types memory obj
  pointer := fun slot => if slot ∈ manager.slotsOf types memory obj then objectPtr (memory.data obj slot) else none

variable {manager types memory} {later : Memory} {obj size : Nat} {slots : List Nat}

theorem Shape.slotsOf_eq (shape : Shape manager types memory obj size slots) : manager.slotsOf types memory obj = slots := by
  cases shape with
  | plain payload => simp only [slotsOf, payload]
  | typed payload _ _ slotted => simp only [slotsOf, payload, slotted]

theorem Shape.objectAt_eq (shape : Shape manager types memory obj size slots) : manager.objectAt types memory obj =
    { kind := (memory.metadata obj).payload
      size := size
      word := fun offset => if metadataSize + offset < size ∧ offset ∉ slots then some (memory.data obj offset) else none
      fields := slots
      pointer := fun slot => if slot ∈ slots then objectPtr (memory.data obj slot) else none } := by
  simp only [objectAt, shape.slotsOf_eq, shape.sizeOf_eq]

/-- What the mutators know of an object depends on its body only. -/
theorem Shape.objectAt_congr (shape : Shape manager types memory obj size slots)
    (body : SameBody memory later obj size) : manager.objectAt types later obj = manager.objectAt types memory obj := by
  have word : (fun offset => if metadataSize + offset < size ∧ offset ∉ slots then some (later.data obj offset) else none) =
      fun offset => if metadataSize + offset < size ∧ offset ∉ slots then some (memory.data obj offset) else none := by
    funext offset
    split
    · next inside => rw [body.data offset inside.1]
    · rfl
  have pointer : (fun slot => if slot ∈ slots then objectPtr (later.data obj slot) else none) =
      fun slot => if slot ∈ slots then objectPtr (memory.data obj slot) else none := by
    funext slot
    split
    · next member =>
        have within := shape.slot_within member
        rw [body.data slot (by omega)]
    · rfl
  rw [(shape.same_body body).objectAt_eq, shape.objectAt_eq, word, pointer, body.payload]

theorem Shape.objectAt_stored (shape : Shape manager types memory obj size slots) {slot value : Nat}
    (member : slot ∈ slots) : manager.objectAt types (TypeManager.stored memory obj slot value) obj =
      (manager.objectAt types memory obj).withPointer slot (objectPtr value) := by
  have word : (fun offset => if metadataSize + offset < size ∧ offset ∉ slots then
        some ((TypeManager.stored memory obj slot value).data obj offset) else none) =
      fun offset => if metadataSize + offset < size ∧ offset ∉ slots then some (memory.data obj offset) else none := by
    funext offset
    split
    · next inside =>
        rw [data_stored]
        rintro rfl
        exact inside.2 member
    · rfl
  have pointer : (fun other => if other ∈ slots then objectPtr ((TypeManager.stored memory obj slot value).data obj other) else none) =
      Function.update (fun other => if other ∈ slots then objectPtr (memory.data obj other) else none) slot
        (objectPtr value) := by
    funext other
    by_cases same : other = slot
    · subst same
      rw [Function.update_self, if_pos member, stored_here]
    · rw [Function.update_of_ne same, data_stored same]
  rw [(shape.stored member).objectAt_eq, shape.objectAt_eq, word, pointer, metadata_stored]
  rfl

end TypeManager

namespace State.System

open Gc

variable {Types Request Thread : Type}

/-- What the mutators see of a state that holds the objects. -/
def heapStore (manager : TypeManager Types) (state : System Types Thread) (objects : List Nat) : HeapStore Thread Nat where
  roots := fun thread => (state.shared.contexts.own thread).map ContextShared.rootSet
  object := fun obj => if obj ∈ objects then some (manager.objectAt state.shared.types state.memory obj) else none

end State.System

/-- The root that a pointer is copied from. -/
def RootSet.source (roots : RootSet) (value : Nat) : Option Nat :=
  if value = 0 then none else roots.idxOf? (some value)

theorem RootSet.read_source {roots : RootSet} {value : Nat} (held : value ≠ 0 → some value ∈ roots) :
    ObjectStore.read roots (roots.source value) = some (Gc.objectPtr value) := by
  by_cases null : value = 0
  · rw [source, Gc.objectPtr, if_pos null, if_pos null]
    rfl
  · obtain ⟨slot, found⟩ := Option.ne_none_iff_exists'.mp (mt List.idxOf?_eq_none_iff.mp (not_not.mpr (held null)))
    obtain ⟨inside, same, _⟩ := List.idxOf?_eq_some_iff.mp found
    rw [source, Gc.objectPtr, if_neg null, if_neg null, found]
    exact same ▸ List.getElem?_eq_getElem inside

/-- A new object as its thread makes it: what the fields are set from, and the words that it writes. -/
def TypeManager.draft {Types : Type} (manager : TypeManager Types) (types : Types) (memory : Memory) (roots : RootSet)
    (kind : MetadataEnum) (ptr : Nat) (init : List Nat) : HeapDraft where
  kind := kind
  size := manager.sizeOf types memory ptr
  fields := (manager.slotsOf types memory ptr).map fun slot => (slot, roots.source (memory.data ptr slot))
  words := init.zipIdx.filterMap fun word =>
    if metadataSize + 8 * word.2 < manager.sizeOf types memory ptr ∧ 8 * word.2 ∉ manager.slotsOf types memory ptr then
      some (8 * word.2, word.1)
    else none

namespace State.System

variable {Types Request Thread : Type} (manager : TypeManager Types) (state : System Types Thread)

/-- What a mutator does to the store when it allocates: what it makes of the object, if there is room for it. -/
def allocates (thread : Thread) (ty : AllocType) (extraBytes : Nat) (init : List Nat) (slot : Nat) :
    Option (HeapOp Thread) := do
  let context ← state.shared.contexts.own thread
  match (state.mutator context).allocFast manager ty extraBytes with
  | .ok (some ptr, mutator) =>
      let memory := writeWords mutator.memory (ptr + metadataSize) init
      some (.alloc thread (manager.draft state.shared.types memory context.rootSet ty.toObjKind ptr init) slot)
  | .ok (none, _) => some (.full thread)
  | .error _ => none

/-- What an action does to the store. -/
def asks : Action Request Thread → Option (HeapOp Thread)
  | .mutator thread (.newContext slots) => some (.enter thread slots)
  | .mutator thread .dropContext => some (.leave thread)
  | .mutator thread (.alloc ty extraBytes init slot) => state.allocates manager thread ty extraBytes init slot
  | .mutator thread (.load slot field into) => some (.load thread slot field into)
  | .mutator thread (.store slot field from?) => some (.store thread slot field from?)
  | .mutator thread (.assign into from?) => some (.assign thread into from?)
  | .mutator _ (.request _) => none
  | .collector _ => none

end State.System

namespace State.Contexts

variable {Thread : Type} [DecidableEq Thread] {contexts next : Contexts Thread} {thread : Thread} {arc : Nat}
  {context final : ContextShared}

/-- No two threads share a context. -/
theorem Consistent.own_setShared (consistent : contexts.Consistent) (arcs : (contexts.entries.map Prod.snd).Nodup)
    (live : contexts.live thread = some arc) (found : contexts.shared[arc]? = some context) :
    (contexts.setShared arc final).own = Function.update contexts.own thread (some final) := by
  funext other
  have there (arc' : Nat) := @shared_setShared Thread contexts arc arc' final context found
  by_cases same : other = thread
  · subst same
    have here : (contexts.setShared arc final).live other = some arc := live
    rw [Function.update_self, own, here]
    simp [there]
  · rw [Function.update_of_ne same, own, own]
    have here : (contexts.setShared arc final).live other = contexts.live other := rfl
    rw [here]
    cases elsewhere : contexts.live other with
    | none => rfl
    | some arc' =>
        have different : arc' ≠ arc := by
          rintro rfl
          have both := List.inj_on_of_nodup_map arcs (consistent.kept other arc' elsewhere) (consistent.kept thread arc' live) rfl
          exact same (Prod.mk.inj both).1
        simp [there, different]

theorem Consistent.own_newContext (consistent : contexts.Consistent) {rootSet : RootSet}
    (made : contexts.newContext thread rootSet = some next) :
    next.own = Function.update contexts.own thread (some ⟨.new, rootSet⟩) := by
  obtain ⟨_, _, shared, live⟩ := newContext_eq_some made
  funext other
  by_cases same : other = thread
  · subst same
    rw [Function.update_self, own, live, Function.update_self, shared]
    simp
  · rw [Function.update_of_ne same, own, own, live, Function.update_of_ne same, shared]
    cases elsewhere : contexts.live other with
    | none => rfl
    | some arc =>
        have inside := consistent.made other arc (consistent.kept other arc elsewhere)
        simp [List.getElem?_append_left inside]

theorem own_dropContext (dropped : contexts.dropContext thread = some next) :
    next.own = Function.update contexts.own thread none := by
  obtain ⟨_, rfl⟩ := dropContext_eq_some dropped
  funext other
  by_cases same : other = thread
  · subst same
    simp [own]
  · simp [own, Function.update_of_ne same]

end State.Contexts

namespace State.System

open Gc

variable {Types Request Thread : Type} {manager : TypeManager Types} {state next : System Types Thread} {objects : List Nat}
  {thread : Thread} {arc : Nat} {context final : ContextShared} {change : Request → Types → Except Panic Types}

theorem Live.nonnull (live : Live manager state objects) (nonnull : state.shared.mm.baseAddr ≠ 0) {obj : Nat}
    (member : obj ∈ objects) : obj ≠ 0 := by
  have within := (live.in_space member).1
  simp only [TypeManager.range, PageTable.space] at within
  omega

variable [DecidableEq Thread]

/-- What a step needs of the contexts and the space in use, beside the objects. -/
structure Apart (state : System Types Thread) : Prop where
  nonnull : state.shared.mm.baseAddr ≠ 0
  arcs : (state.shared.contexts.entries.map Prod.snd).Nodup

theorem heapStore_setContext (consistent : state.shared.contexts.Consistent) (apart : state.Apart)
    (own : state.shared.contexts.live thread = some arc) (found : state.shared.contexts.shared[arc]? = some context) :
    (state.setContext arc final).heapStore manager objects =
      (state.heapStore manager objects).withRoots thread (some final.rootSet) := by
  have owned : (state.shared.contexts.setShared arc final).own = _ := consistent.own_setShared apart.arcs own found
  have roots : ((state.setContext arc final).heapStore manager objects).roots =
      Function.update (state.heapStore manager objects).roots thread (some final.rootSet) := by
    funext other
    change (((state.shared.contexts.setShared arc final).own other).map ContextShared.rootSet) = _
    rw [owned]
    by_cases same : other = thread
    · subst same
      simp
    · simp [heapStore, Function.update_of_ne same]
  simp only [ObjectStore.withRoots, ← roots]
  rfl

theorem withRoots_same (owned : state.shared.contexts.own thread = some context) :
    (state.heapStore manager objects).withRoots thread (some context.rootSet) = state.heapStore manager objects := by
  have roots : (state.heapStore manager objects).roots thread = some context.rootSet := by
    simp only [heapStore, owned, Option.map_some]
  rw [← roots, ObjectStore.withRoots, Function.update_eq_self]

omit [DecidableEq Thread] in
/-- A slot that holds an object, with a field of it. -/
theorem Live.finds (live : Live manager state objects) (own : state.shared.contexts.live thread = some arc)
    (found : state.shared.contexts.shared[arc]? = some context) {slot field address : Nat}
    (read : state.field manager context slot field = some address) :
    ∃ obj ∈ objects, ∃ size slots, manager.Shape state.shared.types state.memory obj size slots ∧ field ∈ slots ∧
      context.rootSet[slot]? = some (some obj) ∧ address = obj + metadataSize + field := by
  obtain ⟨obj, typeId, slots, inSlot, _, payload, slotted, inside, _, rfl⟩ := field_eq_some read
  have reached := live.own_reached own found (RootSet.mem_iterPointers.mpr (List.mem_of_getElem? inSlot))
  have member := live.reached_mem reached
  obtain ⟨size, others, shape⟩ := live.heap.shaped obj member
  have same : others = slots := by simpa [slotted] using (shape.slotted payload).symm
  exact ⟨obj, member, size, slots, same ▸ shape, inside, inSlot, rfl⟩

omit [DecidableEq Thread] in
/-- A value that a mutator has at hand is a root of its, or null. -/
theorem Live.reads (live : Live manager state objects) (apart : state.Apart)
    (own : state.shared.contexts.live thread = some arc) (found : state.shared.contexts.shared[arc]? = some context)
    {from? : Option Nat} {value : Nat} (read : System.held context from? = some value) :
    ObjectStore.read context.rootSet from? = some (objectPtr value) := by
  cases from? with
  | none =>
      cases read
      rfl
  | some slot =>
      obtain ⟨entry, inSlot, rfl⟩ := Option.map_eq_some_iff.mp read
      cases entry with
      | none => exact inSlot
      | some ptr =>
          have pointed := live.own_reached own found (RootSet.mem_iterPointers.mpr (List.mem_of_getElem? inSlot))
          have nonnull := live.nonnull apart.nonnull (live.reached_mem pointed)
          simp only [ObjectStore.read, inSlot, Option.getD_some, objectPtr, if_neg nonnull]

omit [DecidableEq Thread] in
theorem Live.performs_store (live : Live manager state objects) {obj size slot value : Nat}
    {slots : List Nat} (member : obj ∈ objects) (shape : manager.Shape state.shared.types state.memory obj size slots)
    (slotted : slot ∈ slots) :
    (state.withMemory (TypeManager.stored state.memory obj slot value)).heapStore manager objects =
      (state.heapStore manager objects).withObject obj
        ((manager.objectAt state.shared.types state.memory obj).withPointer slot (objectPtr value)) := by
  have object : ((state.withMemory (TypeManager.stored state.memory obj slot value)).heapStore manager objects).object =
      Function.update (state.heapStore manager objects).object obj
        (some ((manager.objectAt state.shared.types state.memory obj).withPointer slot (objectPtr value))) := by
    funext other
    by_cases same : other = obj
    · subst same
      rw [Function.update_self, ← shape.objectAt_stored slotted]
      exact if_pos member
    · rw [Function.update_of_ne same]
      by_cases there : other ∈ objects
      · obtain ⟨otherSize, otherSlots, otherShape⟩ := live.heap.shaped other there
        have body : TypeManager.SameBody state.memory (TypeManager.stored state.memory obj slot value) other _ :=
          live.heap.stored_body member shape slotted there same
        rw [otherShape.sizeOf_eq] at body
        simp only [heapStore, if_pos there, withMemory, otherShape.objectAt_congr body]
      · simp only [heapStore, if_neg there]
  simp only [ObjectStore.withObject, ← object]
  rfl

section Alloc

variable {ty : AllocType} {extraBytes slot ptr page size : Nat} {init : List Nat} {mmContext : Mm.Context}
  {mm : PageTable} {memory : Memory}
  (allocated : Allocated manager state context ty extraBytes init slot mmContext mm ptr page size memory final)

include allocated

omit [DecidableEq Thread] in
/-- The new object points to nothing but what its thread has. -/
theorem Allocated.pointed (described : manager.Describes state.shared.types ty.toObjKind) {field child : Nat}
    (inside : field ∈ (manager.objectAt state.shared.types memory ptr).fields)
    (pointer : (manager.objectAt state.shared.types memory ptr).pointer field = some child) :
    some child ∈ context.rootSet := by
  have shaped := allocated.shaped
  simp only [System.shaped] at shaped
  split at shaped
  · next length pointed sized walked =>
      simp only [Bool.and_eq_true, decide_eq_true_eq, List.all_eq_true] at shaped
      obtain ⟨slots, shape⟩ := allocated.shape described sized walked
      rw [shape.objectAt_eq] at inside pointer
      simp only [if_pos inside, objectPtr] at pointer
      split at pointer
      · cases pointer
      · next nonnull =>
          cases pointer
          rw [shape.iterate_eq, Except.ok.injEq] at walked
          apply RootSet.mem_iterPointers.mp
          apply shaped.2
          rw [← walked]
          exact List.mem_filter.mpr ⟨List.mem_map_of_mem inside, decide_eq_true nonnull⟩
  · cases shaped

omit [DecidableEq Thread] in
theorem Allocated.drafted (described : manager.Describes state.shared.types ty.toObjKind) :
    (manager.objectAt state.shared.types memory ptr).Drafted context.rootSet
    (manager.draft state.shared.types memory context.rootSet ty.toObjKind ptr init) where
  kind := by simp only [TypeManager.objectAt, TypeManager.draft, allocated.metadata]
  size := rfl
  fields := by
    rw [TypeManager.draft, List.map_map]
    exact (List.map_id _).symm
  pointer := by
    intro field from? listed
    obtain ⟨_, member, same⟩ := List.mem_map.mp listed
    cases same
    have pointer : (manager.objectAt state.shared.types memory ptr).pointer field = objectPtr (memory.data ptr field) :=
      if_pos member
    rw [pointer]
    apply RootSet.read_source
    intro nonnull
    exact allocated.pointed described member (pointer.trans (if_neg nonnull))
  word := by
    intro offset word listed
    obtain ⟨⟨first, idx⟩, member, kept⟩ := List.mem_filterMap.mp listed
    split at kept
    · next inside =>
        have written : memory.data ptr (8 * idx) = first := by
          rw [allocated.written]
          exact writeWords_inside (List.mem_zipIdx_iff_getElem?.mp member)
        cases kept
        exact (if_pos inside).trans (congrArg some written)
    · cases kept

theorem Allocated.performs (described : manager.Describes state.shared.types ty.toObjKind)
    (live : Live manager state objects) (apart : state.Apart)
    (own : state.shared.contexts.live thread = some arc)
    (found : state.shared.contexts.shared[arc]? = some context) :
    ObjectStore.Steps (state.heapStore manager objects)
      (.alloc thread (manager.draft state.shared.types memory context.rootSet ty.toObjKind ptr init) slot)
      (heapStore manager { state.reserved arc final mm with memory } (ptr :: objects)) := by
  obtain ⟨length, new⟩ := allocated.newObject described live own found
  obtain ⟨inside, held⟩ := hold_eq_some allocated.held
  have owned : state.shared.contexts.own thread = some context := by
    rw [Contexts.own, own]
    exact found
  have nonnull : ptr ≠ 0 := by
    obtain ⟨there, inSlot, within⟩ := new.served
    have inTable := (within.trans (PageTable.usedRange_within new.placed inSlot)).trans
      (PageTable.page_within new.placed inSlot)
    have above : mm.baseAddr ≤ ptr := inTable.1
    have base := apart.nonnull
    rw [new.base] at above
    omega
  have fresh := new.fresh live
  have object : (heapStore manager { state.reserved arc final mm with memory } (ptr :: objects)).object =
      Function.update (state.heapStore manager objects).object ptr
        (some (manager.objectAt state.shared.types memory ptr)) := by
    funext other
    by_cases same : other = ptr
    · subst same
      rw [Function.update_self]
      exact if_pos List.mem_cons_self
    · rw [Function.update_of_ne same]
      by_cases there : other ∈ objects
      · obtain ⟨otherSize, otherSlots, otherShape⟩ := live.heap.shaped other there
        have body := live.heap.beside_bodies new.agrees other there
        rw [otherShape.sizeOf_eq] at body
        simp only [heapStore, if_pos there, if_pos (List.mem_cons_of_mem _ there)]
        exact congrArg some (otherShape.objectAt_congr body)
      · have outside : other ∉ ptr :: objects := by simp [same, there]
        simp only [heapStore, if_neg there, if_neg outside]
  have roots : (heapStore manager { state.reserved arc final mm with memory } (ptr :: objects)).roots =
      Function.update (state.heapStore manager objects).roots thread (some final.rootSet) :=
    congrArg ObjectStore.roots (heapStore_setContext live.contexts apart own found)
  have taken : ObjectStore.Steps (state.heapStore manager objects) (.alloc thread _ slot) _ :=
    .alloc (by simp only [heapStore, owned, Option.map_some]) inside (if_neg fresh) (allocated.drafted described)
  have place : objectPtr ptr = some ptr := if_neg nonnull
  rw [← place] at taken
  have rootSet : final.rootSet = context.rootSet.set slot (objectPtr ptr) := by rw [held]
  rw [rootSet] at roots
  convert taken using 1
  rw [ObjectStore.withRoots, ObjectStore.withObject, ← object, ← roots]

end Alloc

/-- What a mutator does to the heap it does to the store. -/
theorem Live.performs_operate (live : Live manager state objects) (apart : state.Apart)
    {action : MutatorAction Request} (described : action.Described manager state.shared.types)
    (own : state.shared.contexts.live thread = some arc)
    (found : state.shared.contexts.shared[arc]? = some context)
    (operates : Operates manager change state arc context action next) (quiet : ∀ request, action ≠ .request request) :
    ∃ op, state.asks manager (.mutator thread action) = some op ∧
      ObjectStore.Steps (state.heapStore manager objects) op
        (next.heapStore manager (state.allocated manager (.mutator thread action) ++ objects)) := by
  have owned : state.shared.contexts.own thread = some context := by
    rw [Contexts.own, own]
    exact found
  have roots : (state.heapStore manager objects).roots thread = some context.rootSet := by
    simp only [heapStore, owned, Option.map_some]
  cases operates with
  | @full ty extraBytes slot size init mmContext mm requested served =>
      obtain ⟨_, step⟩ := Mm.Context.allocates_of_returned live.placed.indexed served
      have granted : (state.mutator context).mmContext.allocFromPageTable (state.mutator context).mm _ = _ := served
      refine ⟨.full thread, ?_, ?_⟩
      · simp only [asks, allocates, owned, Option.bind_some, Mutator.allocFast, requested, granted, bind, Except.bind]
      simp only [allocated, owned, Mutator.allocFast, requested, granted, bind, Except.bind, List.nil_append]
      rw [step.none_unchanged]
      change ObjectStore.Steps _ _ ((state.setContext arc { context with mmContext }).heapStore manager objects)
      rw [heapStore_setContext live.contexts apart own found]
      change ObjectStore.Steps _ _ ((state.heapStore manager objects).withRoots thread (some context.rootSet))
      rw [withRoots_same owned]
      exact .full roots
  | @alloc ty extraBytes slot ptr page size init mmContext mm memory final allocated =>
      have granted : (state.mutator context).mmContext.allocFromPageTable (state.mutator context).mm _ = _ := allocated.served
      have performed := allocated.performs described live apart own found
      refine ⟨.alloc thread (manager.draft state.shared.types memory context.rootSet ty.toObjKind ptr init) slot, ?_, ?_⟩
      · simp only [asks, allocates, owned, Option.bind_some, Mutator.allocFast, allocated.requested, granted, bind,
          Except.bind, allocated.written]
      simp only [System.allocated, owned, Mutator.allocFast, allocated.requested, granted, bind, Except.bind,
        List.singleton_append]
      exact performed
  | @load slot field into address final read held =>
      refine ⟨_, rfl, ?_⟩
      obtain ⟨obj, member, size, slots, shape, inside, inSlot, rfl⟩ := live.finds own found read
      obtain ⟨bound, rfl⟩ := hold_eq_some held
      change ObjectStore.Steps _ _ ((state.setContext arc _).heapStore manager objects)
      rw [heapStore_setContext live.contexts apart own found]
      have pointer : objectPtr (state.memory (obj + metadataSize + field)) =
          (manager.objectAt state.shared.types state.memory obj).pointer field := by
        rw [shape.objectAt_eq]
        exact (if_pos inside).symm
      rw [pointer]
      refine .load roots inSlot (if_pos member) ?_ bound
      rw [shape.objectAt_eq]
      exact inside
  | @store slot field address value from? read stored =>
      refine ⟨_, rfl, ?_⟩
      obtain ⟨obj, member, size, slots, shape, inside, inSlot, rfl⟩ := live.finds own found read
      change ObjectStore.Steps _ _ ((state.withMemory (TypeManager.stored state.memory obj field value)).heapStore manager objects)
      rw [live.performs_store member shape inside]
      refine .store roots inSlot (if_pos member) ?_ (live.reads apart own found stored)
      rw [shape.objectAt_eq]
      exact inside
  | assign read held =>
      refine ⟨_, rfl, ?_⟩
      obtain ⟨bound, rfl⟩ := hold_eq_some held
      change ObjectStore.Steps _ _ ((state.setContext arc _).heapStore manager objects)
      rw [heapStore_setContext live.contexts apart own found]
      exact .assign roots (live.reads apart own found read) bound
  | request => exact absurd rfl (quiet _)

theorem Live.performs (live : Live manager state objects) (apart : state.Apart)
    {action : MutatorAction Request} (described : action.Described manager state.shared.types)
    (taken : Steps manager change state (.mutator thread action) next)
    (quiet : ∀ request, action ≠ .request request) :
    ∃ op, state.asks manager (.mutator thread action) = some op ∧
      ObjectStore.Steps (state.heapStore manager objects) op
        (next.heapStore manager (state.allocated manager (.mutator thread action) ++ objects)) := by
  -- What a context starts or ends with, no object is touched.
  have only {contexts : Contexts Thread} {entry : Option ContextShared}
      (own : contexts.own = Function.update state.shared.contexts.own thread entry) :
      (state.withContexts contexts).heapStore manager objects =
        (state.heapStore manager objects).withRoots thread (entry.map ContextShared.rootSet) := by
    have roots : ((state.withContexts contexts).heapStore manager objects).roots =
        Function.update (state.heapStore manager objects).roots thread (entry.map ContextShared.rootSet) := by
      funext other
      change (contexts.own other).map ContextShared.rootSet = _
      rw [own]
      by_cases same : other = thread
      · subst same
        simp
      · simp [heapStore, Function.update_of_ne same]
    simp only [ObjectStore.withRoots, ← roots]
    rfl
  cases taken with
  | @newContext _ slots contexts made =>
      refine ⟨_, rfl, ?_⟩
      obtain ⟨free, _⟩ := Contexts.newContext_eq_some made
      change ObjectStore.Steps _ _ ((state.withContexts contexts).heapStore manager objects)
      rw [only (live.contexts.own_newContext made)]
      refine .enter ?_
      simp only [heapStore, Contexts.own, free, Option.bind_none, Option.map_none]
  | @dropContext _ contexts dropped =>
      refine ⟨_, rfl, ?_⟩
      obtain ⟨lives, _⟩ := Contexts.dropContext_eq_some dropped
      obtain ⟨arc, own⟩ := Option.ne_none_iff_exists'.mp lives
      have inside := live.contexts.made _ _ (live.contexts.kept _ _ own)
      have found := List.getElem?_eq_getElem inside
      change ObjectStore.Steps _ _ ((state.withContexts contexts).heapStore manager objects)
      rw [only (Contexts.own_dropContext dropped)]
      have roots : (state.heapStore manager objects).roots thread = some state.shared.contexts.shared[arc].rootSet := by
        simp only [heapStore, Contexts.own, own, found, Option.bind_some, Option.map_some]
      exact .leave roots
  | operate own found operates => exact live.performs_operate apart described own found operates quiet

end State.System

end UwUGC
