import UwUGC.Gc.Cycle
import UwUGC.State.Context

/-! The collector and the mutators together. A mutator keeps its pointers in its roots, and
each of its operations on the heap is one step, in any phase of a cycle. -/

set_option autoImplicit false

namespace UwUGC.State

open Gc

abbrev System (Types Thread : Type) := Collector Types Thread

/-- What a mutator does. Slots are positions in its roots, a field is an offset into the
data of the object that a slot holds. -/
inductive MutatorAction (Request : Type) where
  | newContext (slots : Nat)
  | dropContext
  /-- A new object with the words its data starts with, held in a slot. -/
  | alloc (ty : AllocType) (extraBytes : Nat) (init : List Nat) (slot : Nat)
  | load (slot field into : Nat)
  | store (slot field : Nat) (from? : Option Nat)
  | assign (into : Nat) (from? : Option Nat)
  | request (request : Request)
deriving DecidableEq, Repr

inductive Action (Request Thread : Type) where
  | collector (action : Collector.Action)
  | mutator (thread : Thread) (action : MutatorAction Request)
deriving DecidableEq, Repr

namespace System

variable {Types Request Thread : Type}

/-- Two spaces of one size; a mapping is never at null. -/
def new (firstBase secondBase nrPages : Nat) (types : Types) : System Types Thread :=
  Collector.new (.new firstBase nrPages) (.new secondBase nrPages) types

def writeWords (memory : Memory) (ptr : Nat) : List Nat → Memory
  | [] => memory
  | word :: rest => writeWords (Function.update memory ptr word) (ptr + 8) rest

/-- An access waits for its page. -/
def present (state : System Types Thread) (addr : Nat) : Bool :=
  match state.phase with
  | .relocating copier => copier.present addr
  | _ => true

def held (context : ContextShared) : Option Nat → Option Nat
  | none => some 0
  | some slot => (context.rootSet[slot]?).map (·.getD 0)

def hold (context : ContextShared) (slot ptr : Nat) : Option ContextShared :=
  if slot < context.rootSet.length then
    some { context with rootSet := context.rootSet.set slot (objectPtr ptr) }
  else none

def setContext (state : System Types Thread) (arc : Nat) (context : ContextShared) : System Types Thread :=
  { state with shared := { state.shared with contexts := state.shared.contexts.setShared arc context } }

variable (manager : TypeManager Types)

/-- A field that a slot's object has, with its address. -/
def field (state : System Types Thread) (context : ContextShared) (slot field : Nat) : Option Nat := do
  let obj ← (context.rootSet[slot]?).bind id
  if state.present obj then
    match (state.memory.metadata obj).payload with
    | .plainOldData _ => none
    | .notPlainOldData typeId =>
        match manager.iterateSlots state.shared.types typeId (state.memory.data obj) with
        | .ok (some slots) =>
            if field ∈ slots ∧ state.present (obj + metadataSize + field) then some (obj + metadataSize + field)
            else none
        | _ => none
  else none

/-- A mutator gives an object its shape before it holds it: no larger than what it asked
for, with no pointers but those it has. -/
def shaped (types : Types) (memory : Memory) (context : ContextShared) (ptr requested : Nat) : Bool :=
  match manager.getSize types memory ptr, manager.iterateGcPointers types memory ptr with
  | .ok size, .ok pointed =>
      decide (size ≤ requested) && pointed.all fun child => decide (child ∈ context.rootSet.iterPointers)
  | _, _ => false

/-- The memory that an allocation writes has been touched. -/
def touched (state : System Types Thread) (ptr requested : Nat) : Bool :=
  (List.range (requested / 8)).all fun word => state.present (ptr + 8 * word)

/-- What a context sees when it allocates. -/
def mutator (state : System Types Thread) (context : ContextShared) : Mutator Types where
  mmContext := context.mmContext
  mm := state.shared.mm
  types := state.shared.types
  markTrueBit := state.shared.markTrueBit
  memory := state.memory

def alloc (state : System Types Thread) (arc : Nat) (context : ContextShared) (ty : AllocType)
    (extraBytes : Nat) (init : List Nat) (slot : Nat) : Except Panic (Option (System Types Thread)) := do
  let requested ← (state.mutator context).requestedBytes manager ty extraBytes
  let (result, mutator) ← (state.mutator context).allocFast manager ty extraBytes
  let context := { context with mmContext := mutator.mmContext }
  let state := { state with shared := { state.shared with mm := mutator.mm } }
  match result with
  | none => .ok (some (state.setContext arc context))
  | some ptr =>
      let memory := writeWords mutator.memory (ptr + metadataSize) init
      if metadataSize + 8 * init.length ≤ requested ∧ touched state ptr requested ∧
          shaped manager state.shared.types memory context ptr requested then
        .ok ((hold context slot ptr).map fun context =>
          setContext { state with memory := memory } arc context)
      else .ok none

def load (state : System Types Thread) (arc : Nat) (context : ContextShared) (slot field into : Nat) :
    Option (System Types Thread) := do
  let address ← state.field manager context slot field
  let context ← hold context into (state.memory address)
  some (state.setContext arc context)

def store (state : System Types Thread) (context : ContextShared) (slot field : Nat) (from? : Option Nat) :
    Option (System Types Thread) := do
  let address ← state.field manager context slot field
  let value ← held context from?
  some { state with memory := Function.update state.memory address value }

def assign (state : System Types Thread) (arc : Nat) (context : ContextShared) (into : Nat) (from? : Option Nat) :
    Option (System Types Thread) := do
  let value ← held context from?
  let context ← hold context into value
  some (state.setContext arc context)

variable [DecidableEq Thread] (change : Request → Types → Except Panic Types)

def operate (state : System Types Thread) (arc : Nat) (context : ContextShared) :
    MutatorAction Request → Except Panic (Option (System Types Thread))
  | .alloc ty extraBytes init slot => state.alloc manager arc context ty extraBytes init slot
  | .load slot field into => .ok (state.load manager arc context slot field into)
  | .store slot field from? => .ok (state.store manager context slot field from?)
  | .assign into from? => .ok (state.assign arc context into from?)
  | .request request => do
      let types ← change request state.shared.types
      .ok (some { state with shared := { state.shared with types } })
  | .newContext _ => .ok none
  | .dropContext => .ok none

def mutate (state : System Types Thread) (thread : Thread) (action : MutatorAction Request) :
    Except Panic (Option (System Types Thread)) :=
  let withContexts (contexts : Contexts Thread) : System Types Thread :=
    { state with shared := { state.shared with contexts } }
  match action with
  | .newContext slots =>
      .ok ((state.shared.contexts.newContext thread (List.replicate slots none)).map withContexts)
  | .dropContext => .ok ((state.shared.contexts.dropContext thread).map withContexts)
  | action =>
      match state.shared.contexts.live thread with
      | none => .ok none
      | some arc =>
          match state.shared.contexts.shared[arc]? with
          | none => .ok none
          | some context => state.operate manager change arc context action

/-- A panic and a step that is not possible both end a run. -/
def step (state : System Types Thread) (action : Action Request Thread) : Option (System Types Thread) :=
  let outcome := match action with
    | .collector action => Collector.act manager state action
    | .mutator thread action => state.mutate manager change thread action
  match outcome with
  | .ok next => next
  | .error _ => none

end System

end UwUGC.State
