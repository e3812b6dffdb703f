import UwUGC.State.System
import UwUGC.Gc.MarkerProperties

/-! What one step of the system can do, said once. -/

set_option autoImplicit false

namespace UwUGC

open Gc State

namespace State.System

variable {Types Request Thread : Type} {manager : TypeManager Types} {state next : System Types Thread}

def withContexts (state : System Types Thread) (contexts : Contexts Thread) : System Types Thread :=
  { state with shared := { state.shared with contexts } }

/-- The state with the page table and the context that an allocation leaves. -/
def reserved (state : System Types Thread) (arc : Nat) (context : ContextShared) (mm : PageTable) :
    System Types Thread :=
  setContext { state with shared := { state.shared with mm } } arc context

/-- What an allocation that succeeds has found. -/
structure Allocated (manager : TypeManager Types) (state : System Types Thread) (context : ContextShared)
    (ty : AllocType) (extraBytes : Nat) (init : List Nat) (slot : Nat) (mmContext : Mm.Context) (mm : PageTable)
    (ptr page size : Nat) (memory : Memory) (final : ContextShared) : Prop where
  requested : (state.mutator context).requestedBytes manager ty extraBytes = .ok size
  served : context.mmContext.allocFromPageTable state.shared.mm size = .ok (some (ptr, page), mmContext, mm)
  written : memory = writeWords ((state.mutator context).initObject ptr ty.toObjKind) (ptr + metadataSize) init
  room : metadataSize + 8 * init.length ≤ size
  touched : touched { state with shared := { state.shared with mm } } ptr size = true
  shaped : shaped manager state.shared.types memory context ptr size = true
  held : hold { context with mmContext } slot ptr = some final

variable {arc : Nat} {context : ContextShared}

theorem alloc_eq_some {ty : AllocType} {extraBytes slot : Nat} {init : List Nat}
    (taken : state.alloc manager arc context ty extraBytes init slot = .ok (some next)) :
    (∃ size mmContext mm, (state.mutator context).requestedBytes manager ty extraBytes = .ok size ∧
      context.mmContext.allocFromPageTable state.shared.mm size = .ok (none, mmContext, mm) ∧
      next = state.reserved arc { context with mmContext } mm) ∨
    ∃ mmContext mm ptr page size memory final,
      Allocated manager state context ty extraBytes init slot mmContext mm ptr page size memory final ∧
      next = { state.reserved arc final mm with memory } := by
  simp only [alloc, bind_eq_ok, Mutator.allocFast] at taken
  obtain ⟨size, requested, ⟨result, mutator⟩, ⟨_, again, ⟨place, mmContext, mm⟩, served, rest⟩, outcome⟩ := taken
  rw [requested] at again
  cases again
  cases place with
  | none =>
      cases rest
      cases outcome
      exact .inl ⟨size, mmContext, mm, requested, served, rfl⟩
  | some place =>
      obtain ⟨ptr, page⟩ := place
      cases rest
      simp only at outcome
      split at outcome
      · next guard =>
          simp only [Except.ok.injEq, Option.map_eq_some_iff] at outcome
          obtain ⟨final, held, rfl⟩ := outcome
          exact .inr ⟨mmContext, mm, ptr, page, size, _, final,
            ⟨requested, served, rfl, guard.1, guard.2.1, guard.2.2, held⟩, rfl⟩
      · cases outcome

theorem hold_eq_some {slot ptr : Nat} {held : ContextShared} (taken : hold context slot ptr = some held) :
    slot < context.rootSet.length ∧ held = { context with rootSet := context.rootSet.set slot (objectPtr ptr) } := by
  obtain ⟨inside, result⟩ := Option.ite_none_right_eq_some.mp taken
  exact ⟨inside, (Option.some.inj result).symm⟩

theorem field_eq_some {slot field address : Nat} (found : state.field manager context slot field = some address) :
    ∃ obj typeId slots, context.rootSet[slot]? = some (some obj) ∧ state.present obj = true ∧
      (state.memory.metadata obj).payload = .notPlainOldData typeId ∧
      manager.iterateSlots state.shared.types typeId (state.memory.data obj) = .ok (some slots) ∧
      field ∈ slots ∧ state.present address = true ∧ address = obj + metadataSize + field := by
  simp only [System.field, bind, Option.bind_eq_some_iff] at found
  obtain ⟨obj, ⟨_, inSlot, rfl⟩, found⟩ := found
  split at found
  · next objPresent =>
      split at found
      · cases found
      · next typeId payload =>
          split at found
          · next slots slotted =>
              split at found
              · next inside =>
                  cases found
                  exact ⟨obj, typeId, slots, inSlot, objPresent, payload, slotted, inside.1, inside.2, rfl⟩
              · cases found
          · cases found
  · cases found

inductive Operates (manager : TypeManager Types) (change : Request → Types → Except Panic Types)
    (state : System Types Thread) (arc : Nat) (context : ContextShared) :
    MutatorAction Request → System Types Thread → Prop where
  | full {ty : AllocType} {extraBytes slot size : Nat} {init : List Nat} {mmContext : Mm.Context} {mm : PageTable}
      (requested : (state.mutator context).requestedBytes manager ty extraBytes = .ok size)
      (served : context.mmContext.allocFromPageTable state.shared.mm size = .ok (none, mmContext, mm)) :
      Operates manager change state arc context (.alloc ty extraBytes init slot)
        (state.reserved arc { context with mmContext } mm)
  | alloc {ty : AllocType} {extraBytes slot ptr page size : Nat} {init : List Nat} {mmContext : Mm.Context}
      {mm : PageTable} {memory : Memory} {final : ContextShared}
      (allocated : Allocated manager state context ty extraBytes init slot mmContext mm ptr page size memory final) :
      Operates manager change state arc context (.alloc ty extraBytes init slot)
        { state.reserved arc final mm with memory }
  | load {slot field into address : Nat} {final : ContextShared}
      (found : state.field manager context slot field = some address)
      (held : hold context into (state.memory address) = some final) :
      Operates manager change state arc context (.load slot field into) (state.setContext arc final)
  | store {slot field address value : Nat} {from? : Option Nat}
      (found : state.field manager context slot field = some address) (read : held context from? = some value) :
      Operates manager change state arc context (.store slot field from?)
        { state with memory := Function.update state.memory address value }
  | assign {into value : Nat} {from? : Option Nat} {final : ContextShared}
      (read : System.held context from? = some value) (held : hold context into value = some final) :
      Operates manager change state arc context (.assign into from?) (state.setContext arc final)
  | request {request : Request} {types : Types} (changed : change request state.shared.types = .ok types) :
      Operates manager change state arc context (.request request)
        { state with shared := { state.shared with types } }

variable {change : Request → Types → Except Panic Types}

theorem operate_eq_some [DecidableEq Thread] {action : MutatorAction Request}
    (taken : state.operate manager change arc context action = .ok (some next)) :
    Operates manager change state arc context action next := by
  cases action with
  | newContext slots => cases taken
  | dropContext => cases taken
  | alloc ty extraBytes init slot =>
      rcases alloc_eq_some taken with ⟨size, mmContext, mm, requested, served, rfl⟩ |
        ⟨mmContext, mm, ptr, page, size, memory, final, allocated, rfl⟩
      · exact .full requested served
      · exact .alloc allocated
  | load slot field into =>
      simp only [operate, load, Except.ok.injEq, bind, Option.bind_eq_some_iff, Option.some.injEq] at taken
      obtain ⟨address, found, final, held, rfl⟩ := taken
      exact .load found held
  | store slot field from? =>
      simp only [operate, store, Except.ok.injEq, bind, Option.bind_eq_some_iff, Option.some.injEq] at taken
      obtain ⟨address, found, value, read, rfl⟩ := taken
      exact .store found read
  | assign into from? =>
      simp only [operate, assign, Except.ok.injEq, bind, Option.bind_eq_some_iff, Option.some.injEq] at taken
      obtain ⟨value, read, final, held, rfl⟩ := taken
      exact .assign read held
  | request request =>
      simp only [operate, bind_eq_ok, Except.ok.injEq, Option.some.injEq] at taken
      obtain ⟨types, changed, rfl⟩ := taken
      exact .request changed

inductive Steps [DecidableEq Thread] (manager : TypeManager Types) (change : Request → Types → Except Panic Types)
    (state : System Types Thread) : Action Request Thread → System Types Thread → Prop where
  | newContext {thread : Thread} {slots : Nat} {contexts : Contexts Thread}
      (made : state.shared.contexts.newContext thread (List.replicate slots none) = some contexts) :
      Steps manager change state (.mutator thread (.newContext slots)) (state.withContexts contexts)
  | dropContext {thread : Thread} {contexts : Contexts Thread}
      (dropped : state.shared.contexts.dropContext thread = some contexts) :
      Steps manager change state (.mutator thread .dropContext) (state.withContexts contexts)
  | operate {thread : Thread} {action : MutatorAction Request} {arc : Nat} {context : ContextShared}
      {next : System Types Thread} (live : state.shared.contexts.live thread = some arc)
      (found : state.shared.contexts.shared[arc]? = some context)
      (operates : Operates manager change state arc context action next) :
      Steps manager change state (.mutator thread action) next
  | collector {action : Collector.Action} {next : System Types Thread}
      (acted : Collector.act manager state action = .ok (some next)) :
      Steps manager change state (.collector action) next

theorem step_eq_some [DecidableEq Thread] {action : Action Request Thread}
    (taken : step manager change state action = some next) : Steps manager change state action next := by
  cases action with
  | collector action =>
      simp only [step] at taken
      split at taken
      · next acted => exact .collector (taken ▸ acted)
      · cases taken
  | mutator thread action =>
      simp only [step] at taken
      split at taken
      · next outcome mutated =>
          subst taken
          unfold mutate at mutated
          split at mutated
          · simp only [Except.ok.injEq, Option.map_eq_some_iff] at mutated
            obtain ⟨contexts, made, rfl⟩ := mutated
            exact .newContext made
          · simp only [Except.ok.injEq, Option.map_eq_some_iff] at mutated
            obtain ⟨contexts, dropped, rfl⟩ := mutated
            exact .dropContext dropped
          · split at mutated
            · cases mutated
            · next arc live =>
                split at mutated
                · cases mutated
                · next context found => exact .operate live found (operate_eq_some mutated)
      · cases taken

theorem Operates.returns {action : MutatorAction Request} (operates : Operates manager change state arc context action next) :
    state.operate manager change arc context action = .ok (some next) := by
  cases operates with
  | full requested served =>
      have granted : (state.mutator context).mmContext.allocFromPageTable (state.mutator context).mm _ = _ := served
      simp only [operate, System.alloc, Mutator.allocFast, requested, granted, bind, Except.bind]
      rfl
  | alloc allocated =>
      have granted : (state.mutator context).mmContext.allocFromPageTable (state.mutator context).mm _ = _ := allocated.served
      obtain rfl := allocated.written
      simp only [operate, System.alloc, Mutator.allocFast, allocated.requested, granted, bind, Except.bind]
      rw [if_pos ⟨allocated.room, allocated.touched, allocated.shaped⟩, allocated.held]
      rfl
  | load found held => simp only [operate, System.load, found, held, bind, Option.bind]
  | store found read => simp only [operate, System.store, found, read, bind, Option.bind]
  | assign read held => simp only [operate, System.assign, read, held, bind, Option.bind]
  | request changed =>
      simp only [operate, changed, bind, Except.bind]

theorem Steps.returns [DecidableEq Thread] {thread : Thread} {action : MutatorAction Request}
    (steps : Steps manager change state (.mutator thread action) next) :
    step manager change state (.mutator thread action) = some next := by
  cases steps with
  | newContext made =>
      simp only [step, mutate, made]
      rfl
  | dropContext dropped =>
      simp only [step, mutate, dropped]
      rfl
  | operate live found operates =>
      have returned := operates.returns
      cases operates <;> simp only [step, mutate, live, found, returned]

end State.System

theorem Gc.CopierActive.resolveFault_eq_ok {Types : Type} {manager : TypeManager Types} {types : Types}
    {copier later : CopierActive} {memory after : Memory} {addr : Nat}
    (resolved : copier.resolveFault manager types memory addr = .ok (after, later)) :
    ∃ workDone, later = { copier with workDone } := by
  have zeropage {pageId : Nat} (done : copier.doZeropage memory pageId = .ok (after, later)) :
      ∃ workDone, later = { copier with workDone } := by
    simp only [doZeropage, bind_eq_ok, Prod.exists, claim_eq_ok] at done
    obtain ⟨_, _, ⟨workDone, _, rfl⟩, done⟩ := done
    split at done <;> cases done <;> exact ⟨workDone, rfl⟩
  simp only [resolveFault, bind_eq_ok] at resolved
  obtain ⟨offset, _, resolved⟩ := resolved
  split at resolved
  · exact zeropage resolved
  · simp only [bind_eq_ok] at resolved
    obtain ⟨idx, _, resolved⟩ := resolved
    cases idx with
    | none => exact zeropage resolved
    | some idx =>
        simp only [doRelocate, bind_eq_ok, Prod.exists, claim_eq_ok] at resolved
        obtain ⟨_, _, _, _, _, _, ⟨workDone, _, rfl⟩, resolved⟩ := resolved
        split at resolved
        · cases resolved
          exact ⟨workDone, rfl⟩
        · simp only [bind_eq_ok, Except.ok.injEq, Prod.mk.injEq] at resolved
          obtain ⟨_, _, _, rfl⟩ := resolved
          exact ⟨workDone, rfl⟩

namespace Gc.Collector

variable {Types Thread : Type} {manager : TypeManager Types} {state next : Collector Types Thread}

theorem donated_eq_ok {outcome : Except Panic Unit × PageTable} {table : PageTable} :
    donated outcome = .ok table ↔ outcome = (.ok (), table) := by
  obtain ⟨result, kept⟩ := outcome
  cases result <;> simp [donated, Except.map]

/-- What step 3 finds when it goes through. -/
structure Prepared (state : Collector Types Thread) (heap : HeapInfo) (marking : Marking) (secondMm : PageTable)
    (contexts : Contexts Thread) : Prop where
  donated : donatePages state.shared.mm
    (List.range' heap.usedEndPage (state.shared.mm.getUsedEndPage - heap.usedEndPage)) marking.pageTable = .ok secondMm
  mapped : state.shared.contexts.mapRoots
    (relocate marking.registry.freeze ⟨heap.start, heap.toSpace⟩ "Cannot find relocation record") = .ok contexts

def swapped (manager : TypeManager Types) (state : Collector Types Thread) (heap : HeapInfo) (marking : Marking)
    (secondMm : PageTable) (contexts : Contexts Thread) : Collector Types Thread :=
  { state with
    shared := { state.shared with mm := secondMm, contexts, types := manager.wipeDeads state.shared.types }
    gc := { state.gc with cachedMarker := some ⟨marking.markStack⟩ }
    phase := .relocating (.start ⟨heap.start, heap.toSpace⟩ marking.registry.freeze state.shared.mm secondMm) }

def snapshot (manager : TypeManager Types) (state : Collector Types Thread) (second : PageTable)
    (queue : List PageTable) (registry : RegistryBuilder) (marker : Marker) : Collector Types Thread :=
  { state with
    shared := { state.shared with
      secondMm := queue
      markTrueBit := state.shared.markTrueBit.not
      types := manager.assumeAllDead state.shared.types }
    gc := ⟨none, none⟩
    phase := .marking ⟨state.shared.mm.baseAddr, state.shared.mm.getUsedEndPage, second.baseAddr⟩
      state.shared.markTrueBit (.start marker state.shared.contexts.rootSets second registry) }

inductive Acts (manager : TypeManager Types) (state : Collector Types Thread) :
    Action → Collector Types Thread → Prop where
  | flush (idle : state.phase = .idle) :
      Acts manager state .flush { state with
        shared := { state.shared with contexts := state.shared.contexts.flush }
        phase := .flushed }
  | step1 {second : PageTable} {queue : List PageTable} {registry : RegistryBuilder} {marker : Marker}
      (flushed : state.phase = .flushed) (received : state.shared.secondMm = second :: queue)
      (cachedRegistry : state.gc.cachedRegistry = some registry) (cachedMarker : state.gc.cachedMarker = some marker) :
      Acts manager state .step1 (state.snapshot manager second queue registry marker)
  | mark {heap : HeapInfo} {bit : Bit} {marking later : Marking} {memory : Memory}
      (marks : state.phase = .marking heap bit marking)
      (stepped : marking.step manager state.shared.types heap bit state.memory = .ok (some (memory, later))) :
      Acts manager state .mark { state with memory, phase := .marking heap bit later }
  | step3 {heap : HeapInfo} {bit : Bit} {marking : Marking} {secondMm : PageTable} {contexts : Contexts Thread}
      (marks : state.phase = .marking heap bit marking)
      (ended : marking.step manager state.shared.types heap bit state.memory = .ok none)
      (prepared : state.Prepared heap marking secondMm contexts) :
      Acts manager state .step3 (state.swapped manager heap marking secondMm contexts)
  | resolve {addr : Nat} {copier later : CopierActive} {memory : Memory} (relocates : state.phase = .relocating copier)
      (resolved : copier.resolveFault manager state.shared.types state.memory addr = .ok (memory, later)) :
      Acts manager state (.resolve addr) { state with memory, phase := .relocating later }
  | finish {copier : CopierActive} (relocates : state.phase = .relocating copier) (finished : copier.finished = true) :
      Acts manager state .finish { state with
        memory := clearSpace state.memory copier.fromMm
        gc := { state.gc with cachedRegistry := some copier.relocRegistry.unfreeze }
        phase := .cleared copier.fromMm }
  | step5 {secondMm : PageTable} (cleared : state.phase = .cleared secondMm) :
      Acts manager state .step5 { state with
        memory := clearSpace state.memory secondMm
        shared := { state.shared with secondMm := state.shared.secondMm ++ [secondMm] }
        phase := .idle }

theorem act_eq_ok {action : Action} (acted : act manager state action = .ok (some next)) :
    Acts manager state action next := by
  cases action with
  | flush =>
      simp only [act, Collector.flush] at acted
      split at acted
      · next idle =>
          cases acted
          exact .flush idle
      · cases acted
  | step1 =>
      simp only [act, Collector.step1] at acted
      split at acted
      · next flushed received =>
          simp only [bind_eq_ok, unwrap_eq_ok, Except.ok.injEq, Option.some.injEq] at acted
          obtain ⟨registry, cachedRegistry, marker, cachedMarker, rfl⟩ := acted
          exact .step1 flushed received cachedRegistry cachedMarker
      · cases acted
  | mark =>
      simp only [act, Collector.mark] at acted
      split at acted
      · next marks =>
          simp only [bind_eq_ok] at acted
          obtain ⟨outcome, stepped, acted⟩ := acted
          cases outcome with
          | none => cases acted
          | some pair =>
              cases acted
              exact .mark marks stepped
      · cases acted
  | step3 =>
      simp only [act, Collector.step3] at acted
      split at acted
      · next marks =>
          simp only [bind_eq_ok] at acted
          obtain ⟨outcome, ended, acted⟩ := acted
          cases outcome with
          | some pair => cases acted
          | none =>
              simp only [bind_eq_ok, Except.ok.injEq, Option.some.injEq] at acted
              obtain ⟨secondMm, donated, contexts, mapped, rfl⟩ := acted
              exact .step3 marks ended ⟨donated, mapped⟩
      · cases acted
  | resolve addr =>
      simp only [act, Collector.resolve] at acted
      split at acted
      · next relocates =>
          simp only [bind_eq_ok, Except.ok.injEq, Option.some.injEq] at acted
          obtain ⟨⟨memory, later⟩, resolved, rfl⟩ := acted
          exact .resolve relocates resolved
      · cases acted
  | finish =>
      simp only [act, Collector.finish] at acted
      split at acted
      · next relocates =>
          split at acted
          · next finished =>
              cases acted
              exact .finish relocates finished
          · cases acted
      · cases acted
  | step5 =>
      simp only [act, Collector.step5] at acted
      split at acted
      · next cleared =>
          cases acted
          exact .step5 cleared
      · cases acted

end Gc.Collector

end UwUGC
