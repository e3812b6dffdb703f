import UwUGC.Plus.Types
import UwUGC.TypeManager

/-! The walk over the pointers of one object, and the type manager that rests on it. -/

set_option autoImplicit false

namespace UwUGC.Plus

structure ArrayIter where
  elementDesc : Descriptor
  len : Nat
  current : Nat
  currentIter : PointerIter

inductive PointerIterator where
  | normalIterator (iter : PointerIter)
  | array (iter : ArrayIter)
  | refArray (next len : Nat)

def ArrayIter.turn (iter : ArrayIter) : Option (Option Nat × ArrayIter) :=
  if iter.current ≥ iter.len then none
  else match iter.currentIter.turn with
    | none => some (none, { iter with current := iter.current + 1, currentIter := iter.elementDesc.iterPtrs })
    | some (some offset, currentIter) =>
        some (some (iter.current * iter.elementDesc.size + offset + arrayHeaderSize), { iter with currentIter })
    | some (none, currentIter) => some (none, { iter with currentIter })

namespace PointerIterator

/-- The first word of an array's data is its length. -/
def fromTypeInfo (info : TypeInfo) (data : Nat → Nat) : PointerIterator :=
  match info with
  | .dynamicallyKnown desc =>
      if desc.isArray then .array ⟨desc, data 0, 0, desc.iterPtrs⟩ else .normalIterator desc.iterPtrs
  | .staticallyKnown desc =>
      if desc.isArray then .array ⟨desc, data 0, 0, desc.iterPtrs⟩ else .normalIterator desc.iterPtrs
  | .refArray len => .refArray 0 len

def turn : PointerIterator → Option (Option Nat × PointerIterator)
  | normalIterator iter => iter.turn.map fun (offset, iter) => (offset, normalIterator iter)
  | array iter => iter.turn.map fun (offset, iter) => (offset, array iter)
  | refArray next len => if next < len then some (some next, refArray (next + 1) len) else none

/-- The turns that a fresh iterator takes. -/
def turns (info : TypeInfo) (data : Nat → Nat) : Nat :=
  match info with
  | .dynamicallyKnown desc => if desc.isArray then data 0 * (desc.turns + 1) else desc.turns
  | .staticallyKnown desc => if desc.isArray then data 0 * (desc.turns + 1) else desc.turns
  | .refArray len => len

end PointerIterator

/-- The offsets into the data that `iter_pointers` goes through. -/
def TypeInfo.iterPointers (info : TypeInfo) (data : Nat → Nat) : List Nat :=
  drain PointerIterator.turn (PointerIterator.turns info data) (.fromTypeInfo info data)

namespace Types

def iterateSlots (types : Types) (statics : UInt64 → Descriptor) (typeId : UInt64) (data : Nat → Nat) :
    Except Panic (Option (List Nat)) := do
  let info ← types.getType statics typeId
  .ok (info.map (·.iterPointers data))

def typeManager (statics : UInt64 → Descriptor) : TypeManager Types where
  assumeAllDead := assumeAllDead
  setAlive := setAlive
  wipeDeads := wipeDeads
  iterateSlots := fun types => types.iterateSlots statics
  updateSlots := fun types => types.iterateSlots statics
  getStaticSize := fun types => types.getStaticSize statics
  getDynamicSize := fun types => types.getDynamicSize statics

end Types

end UwUGC.Plus
