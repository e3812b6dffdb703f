import UwUGC.Plus.PointerIterator
import UwUGC.Plus.RootRefs
import UwUGC.State.Context

/-! The typed allocations of a thread: the object is allocated under the address of its
static descriptor, held by a new root reference, and then written. -/

set_option autoImplicit false

namespace UwUGC.Plus

/-- The types that objects are allocated with, each with the address of its descriptor. -/
inductive ObjectType where
  | declared (size : Nat) (descriptor : UInt64)
  | array (element : ObjectType) (descriptor : UInt64)

namespace ObjectType

def sizeOf : ObjectType → Nat
  | declared size _ => size
  | array _ _ => arrayHeaderSize

def descriptor : ObjectType → UInt64
  | declared _ descriptor => descriptor
  | array _ descriptor => descriptor

/-- What an implementation of `HasDescriptor` promises, and what `Array` makes of it. -/
def HasDescriptor (statics : UInt64 → Descriptor) : ObjectType → Prop
  | declared size descriptor => (statics descriptor).size = size ∧ (statics descriptor).isArray = false
  | array element descriptor =>
      statics descriptor = (statics element.descriptor).toArray ∧ element.HasDescriptor statics

end ObjectType

def typeIdFrom (descriptor : UInt64) : Except Panic UInt64 := do
  assert (descriptor &&& typeTypeMask = 0)
    "Pointer to descriptor aren't properly aligned bottom 2 bits is used when it shouldnt"
  .ok descriptor

structure Context where
  mutator : State.Mutator Types
  roots : RootRefs

/-- What others do while a thread waits for a cycle: to the heap, and to its root set. -/
structure WaitCycle where
  mutator : State.Mutator Types → State.Mutator Types
  moves : List (Nat → Nat)

namespace Context

def addPtr (context : Context) (ptr : Nat) : Except Panic (Nat × Context) :=
  match context.roots.inner.addPtr ptr with
  | (.ok ref, inner) =>
      .ok (context.roots.refs.length,
        { context with roots := { inner, refs := context.roots.refs ++ [some ref] } })
  | (.error panic, _) => .error panic

def addResult (context : Context) (result : Option Nat) : Except Panic (Option Nat × Context) :=
  match result with
  | some ptr => do
      let (ref, context) ← context.addPtr ptr
      .ok (some ref, context)
  | none => .ok (none, context)

def allocFast (statics : UInt64 → Descriptor) (context : Context) (typeId : UInt64) (extraBytes : Nat) :
    Except Panic (Option Nat × Context) := do
  let (result, mutator) ← context.mutator.allocFast (Types.typeManager statics) (.typed typeId) extraBytes
  { context with mutator }.addResult result

def allocSlow (statics : UInt64 → Descriptor) (waitCycle : WaitCycle) (context : Context) (typeId : UInt64)
    (extraBytes : Nat) : Except Panic (Option Nat × Context) := do
  context.roots.inner.checkStored
    "There stil active RootReference, store them before calling alloc_slow (its implicitly also safepoint)"
  let (result, mutator) ←
    context.mutator.allocSlow (Types.typeManager statics) waitCycle.mutator (.typed typeId) extraBytes
  { mutator, roots := context.roots.mapPointers waitCycle.moves : Context }.addResult result

/-- One operation after the other on references, as `before_safepoint` and `after_safepoint`
make them. -/
def eachRef (operation : RootRefRaw → Inner → Except Panic Unit × RootRefRaw × Inner) (context : Context) :
    List Nat → Except Panic Context
  | [] => .ok context
  | ref :: rest => do
      let raw ← unwrap (context.roots.refs[ref]?).join
      match operation raw context.roots.inner with
      | (.ok (), raw, inner) =>
          let roots := { inner, refs := context.roots.refs.set ref (some raw) }
          eachRef operation { context with roots } rest
      | (.error panic, _, _) => .error panic

/-- `alloc_fast`, or `alloc_slow` between the two halves of the caller's safepoint. -/
def allocObject (statics : UInt64 → Descriptor) (waitCycle : WaitCycle) (safepoint : List Nat) (context : Context)
    (typeId : UInt64) (extraBytes : Nat) : Except Panic (Option Nat × Context) := do
  let (result, context) ← context.allocFast statics typeId extraBytes
  match result with
  | some ref => .ok (some ref, context)
  | none => do
      let context ← context.eachRef RootRefRaw.store safepoint
      let (result, context) ← context.allocSlow statics waitCycle typeId extraBytes
      let context ← context.eachRef (RootRefRaw.load .debug) safepoint
      .ok (result, context)

def getPtr (context : Context) (ref : Nat) : Except Panic Nat := do
  let raw ← unwrap (context.roots.refs[ref]?).join
  raw.getPtr

def writeMemory (context : Context) (memory : Memory) : Context :=
  { context with mutator := { context.mutator with memory } }

end Context

def writeValue (memory : Memory) (dest size : Nat) (value : Nat → Nat) : Memory := fun address =>
  if (Span.mk dest size).Contains address then value (address - dest) else memory address

def alloc (statics : UInt64 → Descriptor) (waitCycle : WaitCycle) (safepoint : List Nat) (context : Context)
    (ty : ObjectType) (extraBytes : Nat) (init : Nat → Nat) : Except Panic (Option Nat × Context) := do
  let typeId ← typeIdFrom ty.descriptor
  let (result, context) ← context.allocObject statics waitCycle safepoint typeId extraBytes
  match result with
  | some ref => do
      let data := (← context.getPtr ref) + metadataSize
      .ok (some ref, context.writeMemory (writeValue context.mutator.memory data ty.sizeOf init))
  | none => .ok (none, context)

def allocArray (statics : UInt64 → Descriptor) (waitCycle : WaitCycle) (safepoint : List Nat) (context : Context)
    (element : ObjectType) (descriptor : UInt64) (extraBytes len : Nat) (init : Nat → Nat) :
    Except Panic (Option Nat × Context) := do
  let dataBytes ← checkedMul element.sizeOf len
  let typeId ← typeIdFrom descriptor
  let bytes ← checkedAdd dataBytes extraBytes
  let (result, context) ← context.allocObject statics waitCycle safepoint typeId bytes
  match result with
  | some ref => do
      let data := (← context.getPtr ref) + metadataSize
      let headed := Function.update context.mutator.memory data len
      .ok (some ref, context.writeMemory
        (writeValue headed (data + arrayHeaderSize) (element.sizeOf * len) init))
  | none => .ok (none, context)

end UwUGC.Plus
