import UwUGC.Plus.RootRefs
import Mathlib.Logic.Function.Basic

/-! The growable vector of the collected heap. A method works on `&mut self`, which is an
address: a collection at a safepoint inside the method may leave nothing there. -/

set_option autoImplicit false

namespace UwUGC.PlusAlloc

open Plus

/-- The vectors and their backing arrays; a `ZeroOrInit` that is all zeros is `none`. -/
inductive Object (α : Type) where
  | vec (backing : Option Nat) (len : Nat)
  | array (items : List (Option α))
deriving DecidableEq, Repr

/-- The objects by the address of their data. -/
abbrev Heap (α : Type) := Nat → Option (Object α)

/-- Where a cycle moves the objects, and what it does to the pointers inside an item. -/
structure Relocation (α : Type) where
  forward : Nat → Nat
  backward : Nat → Nat
  item : α → α

variable {α : Type}

def Object.relocate (relocation : Relocation α) : Object α → Object α
  | .vec backing len => .vec (backing.map relocation.forward) len
  | .array items => .array (items.map (Option.map relocation.item))

/-- All objects are moved, and from-space is cleared. -/
def Heap.relocate (heap : Heap α) (relocation : Relocation α) : Heap α := fun ptr =>
  if relocation.forward (relocation.backward ptr) = ptr then
    (heap (relocation.backward ptr)).map (Object.relocate relocation)
  else none

/-- What the allocator and the collector do in a heap: where an array of a length is put at
once, how a cycle moves the objects, and where an array is put behind a cycle. -/
structure Environment (α : Type) where
  allocFast : Heap α → Nat → Option Nat
  collect : Heap α → Relocation α
  allocSlow : Heap α → Nat → Option Nat
  fresh : ∀ heap len ptr, allocFast heap len = some ptr → heap ptr = none
  freshSlow : ∀ heap len ptr, allocSlow heap len = some ptr → heap ptr = none

/-- The heap and the root references of the thread. -/
structure Runtime (α : Type) where
  heap : Heap α
  roots : RootRefs

namespace Runtime

def callRef (operation : RootRefRaw → Inner → Except Panic Unit × RootRefRaw × Inner) (roots : RootRefs) (ref : Nat) :
    Except Panic RootRefs := do
  let raw ← unwrap (roots.refs[ref]?).join
  match operation raw roots.inner with
  | (.ok (), raw, inner) => .ok { inner, refs := roots.refs.set ref (some raw) }
  | (.error panic, _, _) => .error panic

def dropRef (roots : RootRefs) (ref : Nat) : Except Panic RootRefs := do
  let raw ← unwrap (roots.refs[ref]?).join
  match raw.drop .debug roots.inner with
  | (.ok (), inner) => .ok { inner, refs := roots.refs.set ref none }
  | (.error panic, _) => .error panic

/-- `before_safepoint` of a list of references. -/
def storeAll (roots : RootRefs) : List Nat → Except Panic RootRefs
  | [] => .ok roots
  | ref :: rest => do storeAll (← callRef RootRefRaw.store roots ref) rest

/-- `after_safepoint`. -/
def loadAll (roots : RootRefs) : List Nat → Except Panic RootRefs
  | [] => .ok roots
  | ref :: rest => do loadAll (← callRef (RootRefRaw.load .debug) roots ref) rest

variable (environment : Environment α) (safepoint : List Nat)

def collected (runtime : Runtime α) (roots : RootRefs) : Runtime α :=
  let relocation := environment.collect runtime.heap
  ⟨runtime.heap.relocate relocation, roots.mapPointers [relocation.forward]⟩

/-- `uwugc_plus::safepoint`. -/
def pass (runtime : Runtime α) : Except Panic (Runtime α) := do
  let roots ← storeAll runtime.roots safepoint
  roots.inner.checkStored "There stil active RootReference, store them before safepoint"
  let runtime := runtime.collected environment roots
  let roots ← loadAll runtime.roots safepoint
  .ok { runtime with roots }

def addPtr (roots : RootRefs) (ptr : Nat) : Except Panic (Nat × RootRefs) :=
  match roots.inner.addPtr ptr with
  | (.ok raw, inner) => .ok (roots.refs.length, { inner, refs := roots.refs ++ [some raw] })
  | (.error panic, _) => .error panic

/-- The retries of `alloc_slow` behind the check, and a new reference to what they find. -/
def allocSlow (runtime : Runtime α) (len : Nat) : Except Panic (Option (Nat × Nat) × Runtime α) := do
  let roots ← storeAll runtime.roots safepoint
  roots.inner.checkStored
    "There stil active RootReference, store them before calling alloc_slow (its implicitly also safepoint)"
  let runtime := runtime.collected environment roots
  match environment.allocSlow runtime.heap len with
  | some ptr => do
      let (ref, roots) ← addPtr runtime.roots ptr
      let roots ← loadAll roots safepoint
      .ok (some (ref, ptr), { runtime with roots })
  | none => do
      let roots ← loadAll runtime.roots safepoint
      .ok (none, { runtime with roots })

def setObject (runtime : Runtime α) (ptr : Nat) (object : Object α) : Runtime α :=
  { runtime with heap := Function.update runtime.heap ptr (some object) }

/-- `alloc_array` of zeroed items. -/
def allocArray (runtime : Runtime α) (len : Nat) : Except Panic (Option Nat × Runtime α) := do
  let (result, runtime) ← match environment.allocFast runtime.heap len with
    | some ptr => do
        let (ref, roots) ← addPtr runtime.roots ptr
        .ok (some (ref, ptr), { runtime with roots })
    | none => runtime.allocSlow environment safepoint len
  match result with
  | some (ref, ptr) => .ok (some ref, runtime.setObject ptr (.array (List.replicate len none)))
  | none => .ok (none, runtime)

/-- Reads through a reference. Where no such object is, nothing is known of the memory. -/
def getVec (runtime : Runtime α) (ptr : Nat) : Except Panic (Option Nat × Nat) :=
  match runtime.heap ptr with
  | some (.vec backing len) => .ok (backing, len)
  | _ => .error (.message "dangling reference")

def getArray (runtime : Runtime α) (ptr : Nat) : Except Panic (List (Option α)) :=
  match runtime.heap ptr with
  | some (.array items) => .ok items
  | _ => .error (.message "dangling reference")

def setItem (runtime : Runtime α) (ptr index : Nat) (item : Option α) : Except Panic (Runtime α) := do
  let items ← runtime.getArray ptr
  if index < items.length then .ok (runtime.setObject ptr (.array (items.set index item)))
  else .error .indexOutOfBounds

def getPtr (runtime : Runtime α) (ref : Nat) : Except Panic Nat := do
  let raw ← unwrap (runtime.roots.refs[ref]?).join
  raw.getPtr

/-- `self.backing.store(Some(allocated))`, which takes the reference. -/
def storeBacking (runtime : Runtime α) (self allocated : Nat) : Except Panic (Runtime α) := do
  let ptr ← runtime.getPtr allocated
  let roots ← dropRef runtime.roots allocated
  let (_, len) ← runtime.getVec self
  .ok { runtime.setObject self (.vec (some ptr) len) with roots }

/-- The loop over the items of the old array, which is borrowed all the while. -/
def copyItems (old allocated : Nat) : List Nat → Runtime α → Except Panic (Runtime α)
  | [], runtime => .ok runtime
  | i :: rest, runtime => do
      let src ← unwrap (← runtime.getArray old)[i]?
      let runtime ← runtime.setItem (← runtime.getPtr allocated) i src
      let runtime ← if i % 512 ≠ 0 then runtime.pass environment (allocated :: safepoint) else .ok runtime
      copyItems old allocated rest runtime

end Runtime

def isPowerOfTwo (value : Nat) : Bool := value != 0 && 2 ^ value.log2 == value

/-- `usize::next_power_of_two` with its overflow check. -/
def nextPowerOfTwo (value : Nat) : Except Panic Nat :=
  let power := if value ≤ 1 then 1 else 2 ^ ((value - 1).log2 + 1)
  if power < 2 ^ 64 then .ok power else .error (.message "attempt to add with overflow")

/-- The capacity that `ensure_capacity` makes of the one it is asked for. -/
def requestedCapacity (minCapacity : Nat) : Except Panic Nat :=
  if isPowerOfTwo minCapacity then .ok minCapacity else nextPowerOfTwo minCapacity

namespace Vec

variable (environment : Environment α) (safepoint : List Nat)

/-- `false` is `Err(())`. -/
def ensureCapacity (self minCapacity : Nat) (runtime : Runtime α) : Except Panic (Bool × Runtime α) := do
  let minCapacity ← requestedCapacity minCapacity
  let (backing, _) ← runtime.getVec self
  let (result, runtime) ← match backing with
    | some _ => .ok (true, runtime)
    | none => do
        match ← runtime.allocArray environment safepoint minCapacity with
        | (some allocated, runtime) => do .ok (true, ← runtime.storeBacking self allocated)
        | (none, runtime) => .ok (false, runtime)
  if !result then .ok (false, runtime)
  else do
    let (backing, _) ← runtime.getVec self
    let items ← runtime.getArray (← unwrap backing)
    if minCapacity > items.length then
      match ← runtime.allocArray environment safepoint minCapacity with
      | (some allocated, runtime) => do
          let (backing, _) ← runtime.getVec self
          let old ← unwrap backing
          let items ← runtime.getArray old
          let runtime ← runtime.copyItems environment safepoint old allocated (List.range items.length)
          .ok (true, ← runtime.storeBacking self allocated)
      | (none, runtime) => .ok (false, runtime)
    else .ok (true, runtime)

/-- `self.backing.get_mut().unwrap()[self.len] = ZeroOrInit::new(data); self.len += 1`. -/
def push (self : Nat) (data : α) (runtime : Runtime α) : Except Panic (Runtime α) := do
  let (backing, len) ← runtime.getVec self
  let runtime ← runtime.setItem (← unwrap backing) len (some data)
  let (backing, len) ← runtime.getVec self
  .ok (runtime.setObject self (.vec backing (← checkedAdd len 1)))

def insert (self : Nat) (data : α) (runtime : Runtime α) : Except Panic (Bool × Runtime α) := do
  let (_, len) ← runtime.getVec self
  let (result, runtime) ← ensureCapacity environment safepoint self (← checkedAdd len 1) runtime
  if result then do .ok (true, ← push self data runtime) else .ok (false, runtime)

def pushAll (self : Nat) : List α → Runtime α → Except Panic (Runtime α)
  | [], runtime => .ok runtime
  | data :: rest, runtime => do pushAll self rest (← push self data runtime)

/-- The capacity is ensured for one item; `initer i` is the value of the `i`-th call. -/
def resizeWith (self len : Nat) (initer : Nat → α) (runtime : Runtime α) : Except Panic (Bool × Runtime α) := do
  let (_, selfLen) ← runtime.getVec self
  let (result, runtime) ← ensureCapacity environment safepoint self (← checkedAdd selfLen 1) runtime
  if result then do .ok (true, ← pushAll self ((List.range len).map initer) runtime) else .ok (false, runtime)

end Vec

end UwUGC.PlusAlloc
