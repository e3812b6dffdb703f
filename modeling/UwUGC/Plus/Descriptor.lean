import Mathlib.Data.List.Induction

/-! What a type tells the collector about its objects: their size, where their own
pointers are, and which other descriptors lie inside at which offsets. -/

set_option autoImplicit false

namespace UwUGC.Plus

inductive Descriptor where
  | mk (fields : List Nat) (unflattened : List (Nat × Descriptor)) (size : Nat) (isArray : Bool)

namespace Descriptor

def fields : Descriptor → List Nat
  | mk fields _ _ _ => fields

def unflattened : Descriptor → List (Nat × Descriptor)
  | mk _ unflattened _ _ => unflattened

def size : Descriptor → Nat
  | mk _ _ size _ => size

def isArray : Descriptor → Bool
  | mk _ _ _ isArray => isArray

def new (fields : List Nat) (size : Nat) : Descriptor := mk fields [] size false

def newUnflattened (fields : List Nat) (size : Nat) (unflattened : List (Nat × Descriptor)) : Descriptor :=
  mk fields unflattened size false

/-- The fields are borrowed here: the source refuses an owned list at compile time. -/
def toArray (descriptor : Descriptor) : Descriptor :=
  mk descriptor.fields descriptor.unflattened descriptor.size true

@[simp] theorem isArray_toArray (descriptor : Descriptor) : descriptor.toArray.isArray = true := rfl

@[simp] theorem size_toArray (descriptor : Descriptor) : descriptor.toArray.size = descriptor.size := rfl

end Descriptor

structure CurrentDescriptor where
  base : Nat
  fields : List Nat
  childs : List (Nat × Descriptor)

/-- The top of `iter_stack` comes first. -/
structure PointerIter where
  iterStack : List CurrentDescriptor

def Descriptor.iterPtrs (descriptor : Descriptor) : PointerIter :=
  ⟨[⟨0, descriptor.fields, descriptor.unflattened⟩]⟩

/-- One turn of the loop in `next`. It ends the iteration (`none`), or goes on with an
offset to return or without one. -/
def PointerIter.turn (iter : PointerIter) : Option (Option Nat × PointerIter) :=
  match iter.iterStack with
  | [] => none
  | current :: below =>
      match current.fields with
      | field :: fields => some (some (current.base + field), ⟨{ current with fields } :: below⟩)
      | [] =>
          match current.childs with
          | [] => some (none, ⟨below⟩)
          | (offset, child) :: childs =>
              some (none, ⟨⟨offset, child.fields, child.unflattened⟩ :: { current with childs } :: below⟩)

mutual

/-- The turns that the iteration takes below a descriptor, its own removal included. -/
def Descriptor.turns : Descriptor → Nat
  | .mk fields unflattened _ _ => fields.length + Descriptor.turnsOfChilds unflattened + 1

def Descriptor.turnsOfChilds : List (Nat × Descriptor) → Nat
  | [] => 0
  | (_, child) :: rest => 1 + child.turns + Descriptor.turnsOfChilds rest

end

/-- What an iteration returns within so many turns. -/
def drain {σ : Type} (turn : σ → Option (Option Nat × σ)) : Nat → σ → List Nat
  | 0, _ => []
  | turns + 1, state =>
      match turn state with
      | none => []
      | some (some offset, next) => offset :: drain turn turns next
      | some (none, next) => drain turn turns next

end UwUGC.Plus
