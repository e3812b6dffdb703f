import UwUGC.Lib.Transition
import UwUGC.Mm.Context
import UwUGC.RootSet
import Mathlib.Logic.Function.Basic

/-! The contexts of the mutators. What a context shares with the collector is made once and
is held twice: by the context, and by the map of the shared state under its thread. -/

set_option autoImplicit false

namespace UwUGC.State

structure ContextShared where
  mmContext : Mm.Context
  rootSet : RootSet
deriving DecidableEq, Repr

/-- The position in `shared` stands for the `Arc`. -/
structure Contexts (Thread : Type) where
  entries : List (Thread × Nat)
  shared : List ContextShared
  /-- The context that a thread has, with its `Arc`. -/
  live : Thread → Option Nat

namespace Contexts

variable {Thread : Type}

def new : Contexts Thread where
  entries := []
  shared := []
  live := fun _ => none

def listed (contexts : Contexts Thread) : List ContextShared :=
  contexts.entries.filterMap fun (_, arc) => contexts.shared[arc]?

def rootSets (contexts : Contexts Thread) : List RootSet := contexts.listed.map (·.rootSet)

def own (contexts : Contexts Thread) (thread : Thread) : Option ContextShared :=
  (contexts.live thread).bind fun arc => contexts.shared[arc]?

def setShared (contexts : Contexts Thread) (arc : Nat) (context : ContextShared) : Contexts Thread :=
  { contexts with shared := contexts.shared.set arc context }

def flushEach : List Nat → List ContextShared → List ContextShared
  | [], shared => shared
  | arc :: rest, shared =>
      flushEach rest (shared.modify arc fun context => { context with mmContext := context.mmContext.flushLocalBuf })

def flush (contexts : Contexts Thread) : Contexts Thread :=
  { contexts with shared := flushEach (contexts.entries.map Prod.snd) contexts.shared }

def mapEach (visitor : Nat → Except Panic Nat) :
    List Nat → List ContextShared → Except Panic (List ContextShared)
  | [], shared => .ok shared
  | arc :: rest, shared =>
      match shared[arc]? with
      | none => mapEach visitor rest shared
      | some context => do
          let rootSet ← context.rootSet.mapPointers visitor
          mapEach visitor rest (shared.set arc { context with rootSet })

def mapRoots (visitor : Nat → Except Panic Nat) (contexts : Contexts Thread) :
    Except Panic (Contexts Thread) := do
  let shared ← mapEach visitor (contexts.entries.map Prod.snd) contexts.shared
  .ok { contexts with shared }

variable [DecidableEq Thread]

/-- A thread has one context at a time; the map has one entry for a thread. -/
def newContext (contexts : Contexts Thread) (thread : Thread) (rootSet : RootSet) : Option (Contexts Thread) :=
  if contexts.live thread = none then
    some {
      entries := contexts.entries.filter (·.1 ≠ thread) ++ [(thread, contexts.shared.length)]
      shared := contexts.shared ++ [⟨.new, rootSet⟩]
      live := Function.update contexts.live thread (some contexts.shared.length) }
  else none

/-- Dropping a context gives its guard and its `Arc` back; nothing takes the entry out of
the map. -/
def dropContext (contexts : Contexts Thread) (thread : Thread) : Option (Contexts Thread) :=
  if contexts.live thread = none then none
  else some { contexts with live := Function.update contexts.live thread none }

/-- The owner of a context changes its roots. -/
def setRoots (contexts : Contexts Thread) (thread : Thread) (rootSet : RootSet) : Option (Contexts Thread) := do
  let arc ← contexts.live thread
  let context ← contexts.shared[arc]?
  some (contexts.setShared arc { context with rootSet })

inductive Action (Thread : Type) where
  | newContext (thread : Thread) (rootSet : RootSet)
  | dropContext (thread : Thread)
  | setRoots (thread : Thread) (rootSet : RootSet)
deriving DecidableEq, Repr

def step (contexts : Contexts Thread) : Action Thread → Option (Contexts Thread)
  | .newContext thread rootSet => contexts.newContext thread rootSet
  | .dropContext thread => contexts.dropContext thread
  | .setRoots thread rootSet => contexts.setRoots thread rootSet

end Contexts

end UwUGC.State
