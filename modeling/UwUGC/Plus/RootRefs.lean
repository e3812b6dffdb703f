import UwUGC.Panic
import UwUGC.RootSet

/-! The references of a thread into the heap. A reference holds its pointer itself, or
it is stored: then the pointer lies in the root set, where the collector sees it. What
a call leaves behind when it panics is part of its result. The counters of what there is
are not bounded; where one goes below zero, the builds differ. -/

set_option autoImplicit false

namespace UwUGC.Plus

structure Inner where
  set : RootSet
  usedMap : List Bool
  storedCount : Nat
  existCount : Nat
deriving DecidableEq, Repr

structure RootRefRaw where
  ptr : Option Nat
  idx : Nat
deriving DecidableEq, Repr

namespace Inner

def new : Inner where
  set := []
  usedMap := []
  storedCount := 0
  existCount := 0

def addPtr (inner : Inner) (ptr : Nat) : Except Panic RootRefRaw × Inner :=
  match inner.usedMap.findIdx? (· = false) with
  | none =>
      (.ok ⟨some ptr, inner.set.length⟩,
        { inner with
          set := inner.set ++ [none]
          usedMap := inner.usedMap ++ [true]
          existCount := inner.existCount + 1 })
  | some freeIndex =>
      match inner.set[freeIndex]? with
      | none => (.error .indexOutOfBounds, inner)
      | some (some _) => (.error (.message "assertion failed: inner.set[free_index].is_none()"), inner)
      | some none =>
          (.ok ⟨some ptr, freeIndex⟩,
            { inner with
              set := inner.set.set freeIndex none
              usedMap := inner.usedMap.set freeIndex true
              existCount := inner.existCount + 1 })

/-- The check that `alloc_slow` and `safepoint` start with. -/
def checkStored (inner : Inner) (text : String) : Except Panic Unit :=
  assert (inner.storedCount = inner.existCount) text

end Inner

namespace RootRefRaw

def getPtr (ref : RootRefRaw) : Except Panic Nat :=
  expect "This root ref is stored to root set, please load first" ref.ptr

/-- The cell is emptied before anything else is looked at. -/
def store (ref : RootRefRaw) (inner : Inner) : Except Panic Unit × RootRefRaw × Inner :=
  match ref.ptr with
  | none => (.error .unwrapNone, ref, inner)
  | some ptr =>
      let ref := { ref with ptr := none }
      let inner := { inner with storedCount := inner.storedCount + 1 }
      match inner.set[ref.idx]? with
      | none => (.error .indexOutOfBounds, ref, inner)
      | some (some _) => (.error (.message "Same index is reused when it must not"), ref, inner)
      | some none => (.ok (), ref, { inner with set := inner.set.set ref.idx (some ptr) })

def load (build : Build) (ref : RootRefRaw) (inner : Inner) : Except Panic Unit × RootRefRaw × Inner :=
  match build.sub inner.storedCount 1 with
  | .error panic => (.error panic, ref, inner)
  | .ok storedCount =>
      let inner := { inner with storedCount }
      match inner.set[ref.idx]? with
      | none => (.error .indexOutOfBounds, ref, inner)
      | some none => (.error (.message "Slot is already loaded?"), ref, inner)
      | some (some ptr) =>
          (.ok (), { ref with ptr := some ptr }, { inner with set := inner.set.set ref.idx none })

/-- The counters of `drop`. -/
def dropCounts (build : Build) (ref : RootRefRaw) (inner : Inner) : Except Panic Unit × Inner :=
  match build.sub inner.existCount 1 with
  | .error panic => (.error panic, inner)
  | .ok existCount =>
      let inner := { inner with existCount }
      if ref.ptr.isNone then
        match build.sub inner.storedCount 1 with
        | .error panic => (.error panic, inner)
        | .ok storedCount => (.ok (), { inner with storedCount })
      else (.ok (), inner)

def drop (build : Build) (ref : RootRefRaw) (inner : Inner) : Except Panic Unit × Inner :=
  match ref.dropCounts build inner with
  | (.error panic, inner) => (.error panic, inner)
  | (.ok (), inner) =>
      if ref.idx < inner.set.length then
        let inner := { inner with set := inner.set.set ref.idx none }
        if ref.idx < inner.usedMap.length then
          (.ok (), { inner with usedMap := inner.usedMap.set ref.idx false })
        else (.error .indexOutOfBounds, inner)
      else (.error .indexOutOfBounds, inner)

end RootRefRaw

/-- The root set of a thread and the references that the thread has made. A reference is
named by when it was made; a dropped one is `none`. -/
structure RootRefs where
  inner : Inner
  refs : List (Option RootRefRaw)
deriving DecidableEq, Repr

namespace RootRefs

inductive Action where
  | addPtr (ptr : Nat)
  | store (ref : Nat)
  | load (ref : Nat)
  | drop (ref : Nat)
  /-- A safepoint. If it is passed, the collector maps the root set so often and so. -/
  | safepoint (moves : List (Nat → Nat))
  /-- An allocation behind a safepoint check, with what it returns. -/
  | allocSlow (moves : List (Nat → Nat)) (result : Option Nat)

def new : RootRefs where
  inner := .new
  refs := []

/-- The references that are live, in the order they were made. -/
def live (roots : RootRefs) : List RootRefRaw := roots.refs.reduceOption

def addPtr (roots : RootRefs) (ptr : Nat) : Option RootRefs :=
  match roots.inner.addPtr ptr with
  | (.ok ref, inner) => some { inner, refs := roots.refs ++ [some ref] }
  | (.error _, _) => none

def mapPointers (roots : RootRefs) (moves : List (Nat → Nat)) : RootRefs :=
  { roots with inner := { roots.inner with
      set := moves.foldl (fun set visitor => set.map (Option.map visitor)) roots.inner.set } }

/-- `None` where the call panics or the reference is not live. A failed check at a
safepoint leaves the state as it is, and nothing is collected there. -/
def step (build : Build) (roots : RootRefs) : Action → Option RootRefs
  | .addPtr ptr => roots.addPtr ptr
  | .store ref =>
      match roots.refs[ref]? with
      | some (some raw) =>
          match raw.store roots.inner with
          | (.ok (), raw, inner) => some { inner, refs := roots.refs.set ref (some raw) }
          | (.error _, _, _) => none
      | _ => none
  | .load ref =>
      match roots.refs[ref]? with
      | some (some raw) =>
          match raw.load build roots.inner with
          | (.ok (), raw, inner) => some { inner, refs := roots.refs.set ref (some raw) }
          | (.error _, _, _) => none
      | _ => none
  | .drop ref =>
      match roots.refs[ref]? with
      | some (some raw) =>
          match raw.drop build roots.inner with
          | (.ok (), inner) => some { inner, refs := roots.refs.set ref none }
          | (.error _, _) => none
      | _ => none
  | .safepoint moves =>
      match roots.inner.checkStored "There stil active RootReference, store them before safepoint" with
      | .ok () => some (roots.mapPointers moves)
      | .error _ => if moves.isEmpty then some roots else none
  | .allocSlow moves result =>
      match roots.inner.checkStored
        "There stil active RootReference, store them before calling alloc_slow (its implicitly also safepoint)" with
      | .ok () =>
          match result with
          | some ptr => (roots.mapPointers moves).addPtr ptr
          | none => some (roots.mapPointers moves)
      | .error _ => if moves.isEmpty ∧ result.isNone then some roots else none

end RootRefs

end UwUGC.Plus
