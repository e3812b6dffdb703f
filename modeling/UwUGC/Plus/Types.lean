import UwUGC.Panic
import UwUGC.Plus.Descriptor
import Mathlib.Logic.Function.Basic

/-! The table of types that were registered at run time, and the decoding of type ids.
A static descriptor is named by its address, which the two low bits of an id leave free. -/

set_option autoImplicit false

namespace UwUGC.Plus

def payloadShift : UInt64 := 2
def typeTypeMask : UInt64 := 0b11

/-- `size_of::<ArrayHeader>()`. -/
def arrayHeaderSize : Nat := 8

structure DescriptorEntry where
  markedDead : Bool
  descriptor : Descriptor

structure Types where
  latestId : UInt64
  dynamicTypes : UInt64 → Option DescriptorEntry

inductive TypeInfo where
  | staticallyKnown (descriptor : Descriptor)
  | refArray (len : Nat)
  | dynamicallyKnown (descriptor : Descriptor)

namespace TypeInfo

def getStaticSize : TypeInfo → Nat
  | refArray len => len * 8
  | dynamicallyKnown desc => if desc.isArray then arrayHeaderSize else desc.size
  | staticallyKnown desc => if desc.isArray then arrayHeaderSize else desc.size

/-- The first word of an array's data is its length. -/
def getDynamicSize (info : TypeInfo) (data : Nat → Nat) : Nat :=
  match info with
  | refArray _ => info.getStaticSize
  | dynamicallyKnown desc => if desc.isArray then info.getStaticSize + desc.size * data 0 else desc.size
  | staticallyKnown desc => if desc.isArray then info.getStaticSize + desc.size * data 0 else desc.size

end TypeInfo

namespace Types

def new : Types where
  latestId := 0
  dynamicTypes := fun _ => none

/-- The id is the counter as it was. -/
def register (types : Types) (descriptor : Descriptor) : Except Panic (UInt64 × Types) :=
  if types.latestId.toNat + 1 < 2 ^ 64 then
    match types.dynamicTypes types.latestId with
    | some _ => .error (.message "There must not be existing entry, we just got unique ID by atomic")
    | none => .ok (types.latestId,
        { latestId := types.latestId + 1
          dynamicTypes := Function.update types.dynamicTypes types.latestId (some ⟨true, descriptor⟩) })
  else .error (.message "Ran out of IDs")

/-- `statics` is the descriptor that lies at an address. -/
def getType (types : Types) (statics : UInt64 → Descriptor) (typeId : UInt64) : Except Panic (Option TypeInfo) :=
  let typeType := typeId &&& typeTypeMask
  if typeType = 0b00 then
    let ptr := typeId &&& ~~~typeTypeMask
    if ptr = 0 then .error .unwrapNone else .ok (some (.staticallyKnown (statics ptr)))
  else if typeType = 0b01 then .ok (some (.refArray (typeId >>> payloadShift).toNat))
  else if typeType = 0b10 then
    .ok ((types.dynamicTypes typeId).map fun entry => .dynamicallyKnown entry.descriptor)
  else .error (.message "not implemented: No idea what bit pattern 0b11 should be")

def assumeAllDead (types : Types) : Types :=
  { types with dynamicTypes := fun typeId =>
      (types.dynamicTypes typeId).map fun entry => { entry with markedDead := true } }

def setAlive (types : Types) (typeId : UInt64) : Bool × Types :=
  match types.dynamicTypes typeId with
  | some entry =>
      (true, { types with
        dynamicTypes := Function.update types.dynamicTypes typeId (some { entry with markedDead := false }) })
  | none => (false, types)

def wipeDeads (types : Types) : Types :=
  { types with dynamicTypes := fun typeId => (types.dynamicTypes typeId).filter fun entry => !entry.markedDead }

def getStaticSize (types : Types) (statics : UInt64 → Descriptor) (typeId : UInt64) : Except Panic (Option Nat) := do
  let info ← types.getType statics typeId
  .ok (info.map (·.getStaticSize))

def getDynamicSize (types : Types) (statics : UInt64 → Descriptor) (typeId : UInt64) (data : Nat → Nat) :
    Except Panic (Option Nat) := do
  let info ← types.getType statics typeId
  .ok (info.map (·.getDynamicSize data))

end Types

end UwUGC.Plus
