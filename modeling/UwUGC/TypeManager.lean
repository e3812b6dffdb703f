import UwUGC.Panic
import UwUGC.Object.Memory

/-! The type manager that the embedder gives to the collector. It knows the size
of each type and where its pointers are; plain data the collector sizes itself. -/

set_option autoImplicit false

namespace UwUGC

/-- The trait, over the state of its implementation. Iterating and updating both go
through the slots of an object one by one; the slots are offsets into its data. -/
structure TypeManager (Types : Type) where
  assumeAllDead : Types → Types
  setAlive : Types → UInt64 → Bool × Types
  wipeDeads : Types → Types
  iterateSlots : Types → UInt64 → (Nat → Nat) → Except Panic (Option (List Nat))
  updateSlots : Types → UInt64 → (Nat → Nat) → Except Panic (Option (List Nat))
  getStaticSize : Types → UInt64 → Except Panic (Option Nat)
  getDynamicSize : Types → UInt64 → (Nat → Nat) → Except Panic (Option Nat)

namespace TypeManager

variable {Types : Type}

def iterateGcPointers (manager : TypeManager Types) (types : Types) (memory : Memory) (obj : Nat) :
    Except Panic (List Nat) :=
  match (memory.metadata obj).payload with
  | .plainOldData _ => .ok []
  | .notPlainOldData typeId => do
      let slots ← expect
        "assertion failed: self.type_manager.iterate_gc_pointers(payload, object, visitor)"
        (← manager.iterateSlots types typeId (memory.data obj))
      .ok ((slots.map (memory.data obj)).filter (· ≠ 0))

def getSize (manager : TypeManager Types) (types : Types) (memory : Memory) (obj : Nat) : Except Panic Nat :=
  match (memory.metadata obj).payload with
  | .plainOldData len => .ok (len.toNat + metadataSize)
  | .notPlainOldData typeId => do
      let size ← unwrap (← manager.getDynamicSize types typeId (memory.data obj))
      .ok (size + metadataSize)

/-- One slot after the other: null stays, and any other pointer is replaced. -/
def updateEach (updater : Nat → Except Panic Nat) (obj : Nat) : List Nat → Memory → Except Panic Memory
  | [], memory => .ok memory
  | slot :: rest, memory => do
      let current := memory.data obj slot
      if current = 0 then updateEach updater obj rest memory
      else do
        let updated ← updater current
        updateEach updater obj rest (Function.update memory (obj + metadataSize + slot) updated)

def updateGcPointers (manager : TypeManager Types) (types : Types) (updater : Nat → Except Panic Nat)
    (memory : Memory) (obj : Nat) : Except Panic Memory :=
  match (memory.metadata obj).payload with
  | .plainOldData _ => .ok memory
  | .notPlainOldData typeId => do
      let slots ← expect
        "assertion failed: self.type_manager.update_gc_pointers(payload, object, updater)"
        (← manager.updateSlots types typeId (memory.data obj))
      updateEach updater obj slots memory

/-- What the contract of the trait promises of a type to whoever walks over its objects: the slots
lie inside the object, and neither the size nor the slots depend on what lies in
the slots or outside the object. -/
structure Lawful (manager : TypeManager Types) (types : Types) (typeId : UInt64) : Prop where
  within : ∀ {data size slots}, manager.getDynamicSize types typeId data = .ok (some size) →
    manager.iterateSlots types typeId data = .ok (some slots) → ∀ slot ∈ slots, slot + 8 ≤ size
  shaped : ∀ {data other size slots},
    manager.getDynamicSize types typeId data = .ok (some size) →
    manager.iterateSlots types typeId data = .ok (some slots) →
    (∀ offset < size, offset ∉ slots → other offset = data offset) →
    manager.getDynamicSize types typeId other = .ok (some size) ∧
      manager.iterateSlots types typeId other = .ok (some slots)

/-- An object of this kind is plain data, or of a type for which the manager keeps its contract. -/
def Describes (manager : TypeManager Types) (types : Types) : MetadataEnum → Prop
  | .plainOldData _ => True
  | .notPlainOldData typeId => manager.Lawful types typeId

end TypeManager

end UwUGC
