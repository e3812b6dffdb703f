import UwUGC.State.MutatorSteps
import UwUGC.Gc.CopierView

/-! Mutators beside the copier. They touch only what is there, so to them the whole heap has
been moved when step 3 is over. -/

set_option autoImplicit false

namespace UwUGC.State.System

open Gc

variable {Types Request Thread : Type} {manager : TypeManager Types} {state next : System Types Thread}
  {copier : CopierActive} {objects : List Nat} {arc : Nat} {context final : ContextShared}
  {change : Request → Types → Except Panic Types}

/-- What the mutators see of a state: the pages that are left to copy as they will be. -/
def seen (manager : TypeManager Types) (state : System Types Thread) : System Types Thread :=
  match state.phase with
  | .relocating copier =>
      { state with memory := copier.view manager state.shared.types state.memory, phase := .idle }
  | _ => state

theorem seen_relocating (relocates : state.phase = .relocating copier) : state.seen manager =
    { state with memory := copier.view manager state.shared.types state.memory, phase := .idle } := by
  simp only [seen, relocates]

theorem seen_present (relocates : state.phase = .relocating copier) (address : Nat) :
    (state.seen manager).present address = true := by
  simp only [seen_relocating relocates, System.present]

@[simp] theorem seen_shared : (state.seen manager).shared = state.shared := by
  unfold seen
  split <;> rfl

@[simp] theorem seen_gc : (state.seen manager).gc = state.gc := by
  unfold seen
  split <;> rfl

/-- The objects of to-space while it is filled: each lies in a page of the copier, or is there
as a whole. -/
structure Relocating (manager : TypeManager Types) (state : System Types Thread) (copier : CopierActive)
    (objects : List Nat) : Prop where
  phase : state.phase = .relocating copier
  copies : copier.Copies manager state.shared.types state.memory
  space : state.shared.mm.space = copier.space
  base : state.shared.mm.baseAddr % 8 = 0
  aligned : state.shared.mm.Aligned
  live : Live manager (state.seen manager) objects
  whole : ∀ obj ∈ objects,
    (∃ idx page, copier.pageTable.slot idx = some page ∧
      (manager.range state.shared.types (state.seen manager).memory obj).Within page.range) ∨
    ∀ address, (manager.range state.shared.types (state.seen manager).memory obj).Contains address →
      copier.present address = true

/-- An object whose header is there is there as a whole. -/
theorem Relocating.there (relocating : Relocating manager state copier objects) {obj : Nat} (member : obj ∈ objects)
    (header : copier.present obj = true) {address : Nat}
    (inside : (manager.range state.shared.types (state.seen manager).memory obj).Contains address) :
    copier.present address = true := by
  rcases relocating.whole obj member with ⟨idx, page, found, within⟩ | whole
  · have laid := relocating.copies.laid
    have start : (manager.range state.shared.types (state.seen manager).memory obj).Contains obj := by
      have size : metadataSize ≤ manager.sizeOf state.shared.types (state.seen manager).memory obj := by
        simpa using relocating.live.heap.size_pos member
      simp only [metadataSize] at size
      simp only [Span.Contains, Span.stop, TypeManager.range]
      omega
    rw [laid.present_page found (within.contains inside), ← laid.present_page found (within.contains start)]
    exact header
  · exact whole address inside

theorem Relocating.agrees (relocating : Relocating manager state copier objects) {obj : Nat} (member : obj ∈ objects)
    (header : copier.present obj = true) : (state.seen manager).memory.Agrees state.memory
      (manager.range state.shared.types (state.seen manager).memory obj) := by
  intro address inside
  have present := relocating.there member header inside
  rw [seen_relocating relocating.phase]
  exact (CopierActive.view_present present).symm

theorem field_returns {slot field obj : Nat} {typeId : UInt64} {slots : List Nat}
    (inSlot : context.rootSet[slot]? = some (some obj)) (header : state.present obj = true)
    (payload : (state.memory.metadata obj).payload = .notPlainOldData typeId)
    (slotted : manager.iterateSlots state.shared.types typeId (state.memory.data obj) = .ok (some slots))
    (member : field ∈ slots) (there : state.present (obj + metadataSize + field) = true) :
    state.field manager context slot field = some (obj + metadataSize + field) := by
  simp only [System.field, inSlot, bind, Option.bind, id_eq, header, if_true, payload, slotted, member, there, and_self]

theorem Relocating.shape (relocating : Relocating manager state copier objects) {obj : Nat}
    (member : obj ∈ objects) (header : copier.present obj = true) :
    (state.seen manager).memory.metadata obj = state.memory.metadata obj ∧
    ∃ size slots, manager.Shape state.shared.types (state.seen manager).memory obj size slots ∧
      manager.Shape state.shared.types state.memory obj size slots := by
  have agrees := relocating.agrees member header
  obtain ⟨size, slots, shape⟩ := relocating.live.heap.shaped obj member
  rw [seen_shared] at shape
  rw [shape.range_eq] at agrees
  have length := shape.header_le
  refine ⟨?_, size, slots, shape, shape.same_body (.of_agrees length agrees)⟩
  simp only [metadataSize] at length
  refine (Memory.metadata_congr (agrees obj ?_) (agrees (obj + 8) ?_)).symm <;>
    simp only [Span.Contains, Span.stop] <;> omega

/-- A field that a mutator can touch is the same field of the heap that it sees. -/
theorem Relocating.field (relocating : Relocating manager state copier objects) {thread : Thread}
    (own : state.shared.contexts.live thread = some arc) (found : state.shared.contexts.shared[arc]? = some context)
    {slot field address : Nat} (read : state.field manager context slot field = some address) :
    (state.seen manager).field manager context slot field = some address ∧ copier.present address = true ∧
      ∃ obj ∈ objects, (manager.range state.shared.types (state.seen manager).memory obj).Contains address := by
  obtain ⟨obj, typeId, slots, inSlot, header, payload, slotted, inside, there, rfl⟩ := field_eq_some read
  simp only [System.present, relocating.phase] at header there
  have live := relocating.live
  have pointed : obj ∈ context.rootSet.iterPointers := RootSet.mem_iterPointers.mpr (List.mem_of_getElem? inSlot)
  have member : obj ∈ objects := live.reached_mem (live.own_reached (by simpa using own) (by simpa using found) pointed)
  obtain ⟨metadata, size, others, shape, now⟩ := relocating.shape member header
  have same : others = slots := by simpa [slotted] using (now.slotted payload).symm
  subst same
  refine ⟨?_, there, obj, member, ?_⟩
  · rw [← metadata] at payload
    apply field_returns inSlot (seen_present relocating.phase _) payload _ inside (seen_present relocating.phase _)
    simpa using shape.slotted payload
  · have within := shape.slot_within inside
    rw [shape.range_eq]
    simp only [Span.Contains, Span.stop]
    omega

theorem Relocating.mutated (relocating : Relocating manager state copier objects) {added : List Nat}
    (mutated : Mutated manager (state.seen manager) (next.seen manager) objects added)
    (phase : next.phase = .relocating copier) (copies : copier.Copies manager state.shared.types next.memory)
    (aligned : next.shared.mm.Aligned)
    (born : ∀ obj ∈ added, ∀ address,
      (manager.range state.shared.types (next.seen manager).memory obj).Contains address → copier.present address = true) :
    Relocating manager next copier (added ++ objects) := by
  have types : next.shared.types = state.shared.types := by simpa using mutated.types
  have space := mutated.space
  have base := mutated.base
  have sizes := mutated.sizes
  simp only [seen_shared] at space base sizes
  refine ⟨phase, types.symm ▸ copies, space.trans relocating.space, base.symm ▸ relocating.base, aligned, mutated.live, ?_⟩
  intro obj member
  rw [types]
  rcases List.mem_append.mp member with new | old
  · exact .inr (born obj new)
  · have same : manager.range state.shared.types (next.seen manager).memory obj =
        manager.range state.shared.types (state.seen manager).memory obj := by
      rw [TypeManager.range, sizes obj old, TypeManager.range]
    rw [same]
    exact relocating.whole obj old

theorem copies_writeWords {memory : Memory} {types : Types} (copies : copier.Copies manager types memory)
    {words : List Nat} {ptr : Nat} (inside : ∀ index < words.length, copier.space.Contains (ptr + 8 * index))
    (there : ∀ index < words.length, copier.present (ptr + 8 * index) = true) :
    copier.Copies manager types (writeWords memory ptr words) ∧
      copier.view manager types (writeWords memory ptr words) = writeWords (copier.view manager types memory) ptr words := by
  induction words generalizing memory ptr with
  | nil => exact ⟨copies, rfl⟩
  | cons word rest ih =>
      obtain ⟨written, view⟩ := copies.write (inside 0 (Nat.zero_lt_succ _)) (there 0 (Nat.zero_lt_succ _)) word
      have shift (index : Nat) : ptr + 8 + 8 * index = ptr + 8 * (index + 1) := by omega
      have rested := @ih _ written (ptr + 8) (fun index bound => shift index ▸ inside (index + 1) (Nat.succ_lt_succ bound))
        fun index bound => shift index ▸ there (index + 1) (Nat.succ_lt_succ bound)
      rw [Nat.mul_zero, Nat.add_zero] at view
      rw [System.writeWords, System.writeWords, ← view]
      exact rested

section Alloc

variable {ty : AllocType} {extraBytes slot ptr page size : Nat} {init : List Nat} {mmContext : Mm.Context}
  {mm : PageTable} {memory : Memory}

theorem Allocated.size_le
    (allocated : Allocated manager state context ty extraBytes init slot mmContext mm ptr page size memory final) :
    manager.sizeOf state.shared.types memory ptr ≤ size := by
  have shaped := allocated.shaped
  simp only [System.shaped] at shaped
  split at shaped
  · next length pointed sized walked =>
      simp only [Bool.and_eq_true, decide_eq_true_eq] at shaped
      simpa only [TypeManager.sizeOf, sized] using shaped.1
  · cases shaped

/-- Where an allocation writes. -/
theorem Relocating.served (relocating : Relocating manager state copier objects)
    (served : context.mmContext.allocFromPageTable state.shared.mm size = .ok (some (ptr, page), mmContext, mm)) :
    mm.Aligned ∧ size % 8 = 0 ∧ ptr % 8 = 0 ∧ (Span.mk ptr size).Within copier.space := by
  have placed : state.shared.mm.Placed := by simpa using relocating.live.placed
  obtain ⟨multiple, step⟩ := Mm.Context.allocates_of_returned placed.indexed served
  have positive := sizeClass_nrPages_pos size
  have final := step.placed placed positive
  have aligned : mm.Aligned := step.aligned placed relocating.aligned positive multiple
  obtain ⟨there, found, bump, inside⟩ := step.serves placed positive
  have start := final.start found
  have used := aligned found
  have base := relocating.base
  obtain ⟨frameBase, frameLength, _⟩ := step.frame
  rw [frameBase, basePageSize_eq] at start
  refine ⟨aligned, multiple, by omega, ?_⟩
  obtain ⟨there, inSlot, within⟩ := step.served placed positive
  have inTable := (within.trans (PageTable.usedRange_within final inSlot)).trans (PageTable.page_within final inSlot)
  rw [frameBase, frameLength] at inTable
  exact relocating.space ▸ inTable

/-- All that an allocation was given is there, once its words are. -/
theorem Relocating.touched (relocating : Relocating manager state copier objects)
    (served : context.mmContext.allocFromPageTable state.shared.mm size = .ok (some (ptr, page), mmContext, mm))
    (touched : touched { state with shared := { state.shared with mm } } ptr size = true) {address : Nat}
    (inside : (Span.mk ptr size).Contains address) : copier.present address = true := by
  obtain ⟨_, multiple, start, within⟩ := relocating.served served
  have words : ∀ word < size / 8, copier.present (ptr + 8 * word) = true := by
    simpa [System.touched, System.present, relocating.phase] using touched
  obtain ⟨above, below⟩ := inside
  simp only [Span.stop] at below above
  have bound : (address - ptr) / 8 < size / 8 := by omega
  rw [← words _ bound]
  have base := relocating.base
  have toSpace : state.shared.mm.baseAddr = copier.heap.toSpace := congrArg Span.start relocating.space
  rw [toSpace] at base
  have inSpace : copier.space.Contains address := within.contains ⟨above, below⟩
  have wordInSpace : copier.space.Contains (ptr + 8 * ((address - ptr) / 8)) := by
    apply within.contains
    simp only [Span.Contains, Span.stop]
    omega
  -- A word does not reach across the end of a base page.
  apply relocating.copies.laid.present_same inSpace wordInSpace
  have lower := inSpace.1
  have wordLower := wordInSpace.1
  simp only [CopierActive.space] at lower wordLower
  rw [basePageSize_eq]
  omega

theorem Relocating.alloc (relocating : Relocating manager state copier objects)
    (described : manager.Describes state.shared.types ty.toObjKind)
    (allocated : Allocated manager state context ty extraBytes init slot mmContext mm ptr page size memory final) :
    Allocated manager (state.seen manager) context ty extraBytes init slot mmContext mm ptr page size
      (copier.view manager state.shared.types memory) final ∧ copier.Copies manager state.shared.types memory := by
  have there {address : Nat} (inside : (Span.mk ptr size).Contains address) : copier.present address = true :=
    relocating.touched allocated.served allocated.touched inside
  have within := (relocating.served allocated.served).2.2.2
  have room := allocated.room
  simp only [metadataSize] at room
  obtain ⟨header, headed, seenHeaded⟩ : ∃ header,
      (state.mutator context).initObject ptr ty.toObjKind = state.memory.writeHeader ptr header ∧
      ((state.seen manager).mutator context).initObject ptr ty.toObjKind =
        (copier.view manager state.shared.types state.memory).writeHeader ptr header := by
    rw [seen_relocating relocating.phase]
    exact ⟨_, rfl, rfl⟩
  have written : memory = writeWords state.memory ptr (header.word.toNat :: header.payload.toNat :: init) := by
    rw [allocated.written, headed]
    rfl
  have words (index : Nat) (bound : index < (header.word.toNat :: header.payload.toNat :: init).length) :
      (Span.mk ptr size).Contains (ptr + 8 * index) := by
    simp only [List.length_cons] at bound
    simp only [Span.Contains, Span.stop]
    omega
  obtain ⟨copies, view⟩ := copies_writeWords relocating.copies (fun index bound => within.contains (words index bound))
    fun index bound => there (words index bound)
  rw [← written] at copies view
  refine ⟨?_, copies⟩
  constructor
  case requested =>
    simpa only [Mutator.requestedBytes, Mutator.getSizeOfAlloc, System.mutator, seen_shared] using allocated.requested
  case served => simpa using allocated.served
  case written =>
    rw [seenHeaded, view]
    rfl
  case room => exact allocated.room
  case touched => simp [System.touched, seen_relocating relocating.phase, System.present]
  case shaped =>
    have shaped := allocated.shaped
    simp only [System.shaped] at shaped
    split at shaped
    · next length pointed sized walked =>
        simp only [Bool.and_eq_true, decide_eq_true_eq] at shaped
        obtain ⟨slots, shape⟩ := allocated.shape described sized walked
        have body : TypeManager.SameBody memory (copier.view manager state.shared.types memory) ptr length := by
          refine .of_agrees shape.header_le ?_
          intro address inside
          apply CopierActive.view_present
          apply there
          simp only [Span.Contains, Span.stop] at inside ⊢
          omega
        have seenShape := shape.same_body body
        rw [shape.iterate_eq, Except.ok.injEq] at walked
        simpa [System.shaped, seenShape.getSize_eq, seenShape.iterate_eq, shape.same_pointers body, walked] using shaped
    · cases shaped
  case held => exact allocated.held

end Alloc

theorem seen_setContext : (state.setContext arc final).seen manager = (state.seen manager).setContext arc final := by
  simp only [seen, System.setContext]
  split <;> rfl

theorem seen_withContexts {contexts : Contexts Thread} :
    (state.withContexts contexts).seen manager = (state.seen manager).withContexts contexts := by
  simp only [seen, System.withContexts]
  split <;> rfl

variable [DecidableEq Thread]

/-- A step of a mutator is the same step on what it sees, and what it allocates is there. -/
structure Follows (manager : TypeManager Types) (change : Request → Types → Except Panic Types)
    (state next : System Types Thread) (copier : CopierActive) (action : Action Request Thread) : Prop where
  seen : Steps manager change (state.seen manager) action (next.seen manager)
  phase : next.phase = .relocating copier
  copies : copier.Copies manager state.shared.types next.memory
  aligned : next.shared.mm.Aligned
  born : ∀ obj ∈ (state.seen manager).allocated manager action, ∀ address,
    (manager.range state.shared.types (next.seen manager).memory obj).Contains address → copier.present address = true

theorem Relocating.operates (relocating : Relocating manager state copier objects) {thread : Thread}
    {action : MutatorAction Request} (described : action.Described manager state.shared.types)
    (quiet : ∀ request, action ≠ .request request)
    (own : state.shared.contexts.live thread = some arc) (found : state.shared.contexts.shared[arc]? = some context)
    (operates : Operates manager change state arc context action next) :
    Follows manager change state next copier (.mutator thread action) := by
  have phase := relocating.phase
  have copies := relocating.copies
  have aligned : state.shared.mm.Aligned := relocating.aligned
  have seenOwn : (state.seen manager).shared.contexts.live thread = some arc := by simpa using own
  have seenFound : (state.seen manager).shared.contexts.shared[arc]? = some context := by simpa using found
  have owned : (state.seen manager).shared.contexts.own thread = some context := by
    rw [seen_shared, Contexts.own, own]
    exact found
  cases operates with
  | @full ty extraBytes slot size init mmContext mm requested served =>
      have placed : state.shared.mm.Placed := by simpa using relocating.live.placed
      obtain ⟨_, step⟩ := Mm.Context.allocates_of_returned placed.indexed served
      have same := step.none_unchanged
      subst same
      have seenRequested : ((state.seen manager).mutator context).requestedBytes manager ty extraBytes = .ok size := by
        simpa only [Mutator.requestedBytes, Mutator.getSizeOfAlloc, System.mutator, seen_shared] using requested
      have seenServed : context.mmContext.allocFromPageTable (state.seen manager).shared.mm size =
          .ok (none, mmContext, state.shared.mm) := by simpa using served
      have granted : ((state.seen manager).mutator context).mmContext.allocFromPageTable
          ((state.seen manager).mutator context).mm size = _ := seenServed
      refine ⟨?_, phase, copies, aligned, ?_⟩
      · have same : (state.reserved arc { context with mmContext } state.shared.mm).seen manager =
            (state.seen manager).reserved arc { context with mmContext } state.shared.mm := by
          rw [seen_relocating phase]
          exact seen_relocating phase
        rw [same]
        exact .operate seenOwn seenFound (.full seenRequested seenServed)
      · simp only [allocated, owned, Mutator.allocFast, seenRequested, granted, bind, Except.bind]
        exact fun obj member => absurd member List.not_mem_nil
  | @alloc ty extraBytes slot ptr page size init mmContext mm memory final allocated =>
      obtain ⟨seenAllocated, copies⟩ := relocating.alloc described allocated
      have granted : ((state.seen manager).mutator context).mmContext.allocFromPageTable
          ((state.seen manager).mutator context).mm size = _ := seenAllocated.served
      have same : System.seen manager { state.reserved arc final mm with memory } =
          { (state.seen manager).reserved arc final mm with memory := copier.view manager state.shared.types memory } := by
        rw [seen_relocating phase]
        exact seen_relocating phase
      refine ⟨?_, phase, copies, (relocating.served allocated.served).1, ?_⟩
      · rw [same]
        exact .operate seenOwn seenFound (.alloc seenAllocated)
      · simp only [System.allocated, owned, Mutator.allocFast, seenAllocated.requested, granted, bind, Except.bind]
        intro obj member address inside
        rw [List.mem_singleton.mp member, same] at inside
        refine relocating.touched allocated.served allocated.touched ?_
        have sized := seenAllocated.size_le
        rw [seen_shared] at sized
        simp only [Span.Contains, Span.stop, TypeManager.range] at inside ⊢
        omega
  | @load slot field into address final read held =>
      obtain ⟨seenRead, there, _⟩ := relocating.field own found read
      have same : (state.seen manager).memory address = state.memory address := by
        rw [seen_relocating phase]
        exact CopierActive.view_present there
      refine ⟨?_, phase, copies, aligned, fun obj member => absurd member List.not_mem_nil⟩
      rw [seen_setContext]
      exact .operate seenOwn seenFound (.load seenRead (same ▸ held))
  | @store slot field address value from? read stored =>
      obtain ⟨seenRead, there, obj, member, inside⟩ := relocating.field own found read
      have inSpace : copier.space.Contains address := by
        have within := relocating.live.in_space member
        rw [seen_shared, relocating.space] at within
        exact within.contains inside
      obtain ⟨copies, view⟩ := copies.write inSpace there value
      refine ⟨?_, phase, copies, aligned, fun obj member => absurd member List.not_mem_nil⟩
      have same : System.seen manager { state with memory := Function.update state.memory address value } =
          { state.seen manager with memory := Function.update (state.seen manager).memory address value } := by
        rw [seen_relocating phase, ← view]
        exact seen_relocating phase
      rw [same]
      exact .operate seenOwn seenFound (.store seenRead stored)
  | assign read held =>
      refine ⟨?_, phase, copies, aligned, fun obj member => absurd member List.not_mem_nil⟩
      rw [seen_setContext]
      exact .operate seenOwn seenFound (.assign read held)
  | request => exact absurd rfl (quiet _)

/-- Whatever a mutator does beside the copier, it does to the heap that it sees. -/
theorem Relocating.mutator (relocating : Relocating manager state copier objects) {thread : Thread}
    {action : MutatorAction Request} (described : action.Described manager state.shared.types)
    (quiet : ∀ request, action ≠ .request request)
    (taken : Steps manager change state (.mutator thread action) next) :
    Steps manager change (state.seen manager) (.mutator thread action) (next.seen manager) ∧
      Relocating manager next copier
        ((state.seen manager).allocated manager (.mutator thread action : Action Request Thread) ++ objects) := by
  have follows : Follows manager change state next copier (.mutator thread action) := by
    cases taken with
    | newContext made =>
        refine ⟨?_, relocating.phase, relocating.copies, relocating.aligned, fun obj member => absurd member List.not_mem_nil⟩
        rw [seen_withContexts]
        exact .newContext (by simpa using made)
    | dropContext dropped =>
        refine ⟨?_, relocating.phase, relocating.copies, relocating.aligned, fun obj member => absurd member List.not_mem_nil⟩
        rw [seen_withContexts]
        exact .dropContext (by simpa using dropped)
    | operate own found operates => exact relocating.operates described quiet own found operates
  have seenDescribed : action.Described manager (state.seen manager).shared.types := by rwa [seen_shared]
  refine ⟨follows.seen, ?_⟩
  exact relocating.mutated (relocating.live.mutates seenDescribed quiet follows.seen) follows.phase follows.copies
    follows.aligned follows.born

omit [DecidableEq Thread] in
/-- A fault changes nothing that the mutators see. -/
theorem Relocating.resolve (relocating : Relocating manager state copier objects) {addr : Nat}
    (taken : Collector.act manager state (.resolve addr) = .ok (some next)) :
    next.seen manager = state.seen manager ∧ ∃ later, Relocating manager next later objects ∧
      (∃ workDone, later = { copier with workDone }) ∧
      ∀ address, copier.present address = true → later.present address = true := by
  have acts := Collector.act_eq_ok taken
  cases acts with
  | @resolve _ _ later memory relocates resolved =>
      cases relocating.phase.symm.trans relocates
      have unseen := relocating.copies.resolve resolved
      have same : System.seen manager { state with memory, phase := .relocating later } = state.seen manager := by
        rw [seen_relocating relocating.phase, ← unseen.view]
        exact seen_relocating rfl
      refine ⟨same, later, ?_, unseen.same, unseen.more⟩
      obtain ⟨workDone, rfl⟩ := unseen.same
      refine ⟨rfl, unseen.copies, relocating.space, relocating.base, relocating.aligned, same ▸ relocating.live, ?_⟩
      rw [same]
      intro obj member
      exact (relocating.whole obj member).imp_right fun whole address inside => unseen.more address (whole address inside)

end UwUGC.State.System
