import UwUGC.RootSet
import UwUGC.Object.Shape
import UwUGC.Lib.GraphSearch

/-! The objects of a space as a graph: each has a shape, each points only to others of
them, and no two overlap. -/

set_option autoImplicit false

namespace UwUGC

namespace TypeManager

variable {Types : Type}

def sizeOf (manager : TypeManager Types) (types : Types) (memory : Memory) (obj : Nat) : Nat :=
  match manager.getSize types memory obj with
  | .ok size => size
  | .error _ => 0

def children (manager : TypeManager Types) (types : Types) (memory : Memory) (obj : Nat) : List Nat :=
  match manager.iterateGcPointers types memory obj with
  | .ok pointed => pointed
  | .error _ => []

def range (manager : TypeManager Types) (types : Types) (memory : Memory) (obj : Nat) : Span :=
  ⟨obj, manager.sizeOf types memory obj⟩

/-- What a path through the pointers leads to from a list of root sets. -/
def Reachable (manager : TypeManager Types) (types : Types) (memory : Memory) (roots : List RootSet) :
    Nat → Prop :=
  GraphSearch.Reachable (manager.children types memory) (roots.flatMap RootSet.iterPointers)

structure Heap (manager : TypeManager Types) (types : Types) (memory : Memory) (objects : List Nat) : Prop where
  shaped : ∀ obj ∈ objects, ∃ size slots, Shape manager types memory obj size slots
  closed : ∀ obj ∈ objects, ∀ child ∈ manager.children types memory obj, child ∈ objects
  separate : ∀ left ∈ objects, ∀ right ∈ objects, left ≠ right →
    (manager.range types memory left).Separate (manager.range types memory right)

variable {manager : TypeManager Types} {types : Types} {memory later : Memory} {obj size : Nat}
  {slots objects : List Nat}

theorem Shape.sizeOf_eq (shape : Shape manager types memory obj size slots) :
    manager.sizeOf types memory obj = size := by
  simp only [sizeOf, shape.getSize_eq]

theorem Shape.children_eq (shape : Shape manager types memory obj size slots) :
    manager.children types memory obj = pointers memory obj slots := by
  simp only [children, shape.iterate_eq]

theorem Shape.range_eq (shape : Shape manager types memory obj size slots) :
    manager.range types memory obj = ⟨obj, size⟩ := by
  rw [range, shape.sizeOf_eq]

/-- The words that a walk reads: the kind and the data of the object. -/
structure SameBody (memory later : Memory) (obj size : Nat) : Prop where
  payload : (later.metadata obj).payload = (memory.metadata obj).payload
  data : ∀ offset, metadataSize + offset < size → later.data obj offset = memory.data obj offset

theorem SameBody.of_agrees (header : metadataSize ≤ size) (agrees : memory.Agrees later ⟨obj, size⟩) :
    SameBody memory later obj size := by
  simp only [metadataSize] at header
  constructor
  · rw [Memory.metadata_congr (agrees obj _) (agrees (obj + 8) _)] <;>
      simp only [Span.Contains, Span.stop] <;> omega
  · intro offset inside
    simp only [metadataSize] at inside
    apply agrees
    simp only [Span.Contains, Span.stop, metadataSize]
    omega

theorem SameBody.setMarked (memory : Memory) (obj size : Nat) (bit : Bit) :
    SameBody memory (memory.setMarked obj bit) obj size where
  payload := by rw [Memory.metadata_setMarked]
  data := by
    intro offset _
    refine Memory.setMarked_of_ne _ _ ?_
    simp only [metadataSize]
    omega

theorem SameBody.trans {last : Memory} (first : SameBody memory later obj size)
    (second : SameBody later last obj size) : SameBody memory last obj size where
  payload := second.payload.trans first.payload
  data := fun offset inside => (second.data offset inside).trans (first.data offset inside)

theorem Shape.same_body (shape : Shape manager types memory obj size slots)
    (body : SameBody memory later obj size) : Shape manager types later obj size slots :=
  shape.moved body.payload fun offset inside _ => body.data offset inside

theorem Movable.same_body (movable : Movable manager types memory obj size slots)
    (body : SameBody memory later obj size) : Movable manager types later obj size slots :=
  movable.moved body.payload fun offset inside _ => body.data offset inside

theorem Shape.same_pointers (shape : Shape manager types memory obj size slots)
    (body : SameBody memory later obj size) : pointers later obj slots = pointers memory obj slots := by
  unfold pointers
  congr 1
  apply List.map_congr_left
  intro slot member
  have within := shape.slot_within member
  exact body.data slot (by omega)

/-- Every object of the heap reads as before, up to its mark. -/
def SameBodies (manager : TypeManager Types) (types : Types) (memory later : Memory) (objects : List Nat) : Prop :=
  ∀ obj ∈ objects, SameBody memory later obj (manager.sizeOf types memory obj)

theorem Heap.size_pos (heap : Heap manager types memory objects) (member : obj ∈ objects) :
    metadataSize ≤ manager.sizeOf types memory obj := by
  obtain ⟨size, slots, shape⟩ := heap.shaped obj member
  rw [shape.sizeOf_eq]
  exact shape.header_le

/-- No object starts at the payload word of another. -/
theorem Heap.header_apart (heap : Heap manager types memory objects) {left right : Nat}
    (leftMember : left ∈ objects) (rightMember : right ∈ objects) : left ≠ right + 8 := by
  intro inside
  have separate := heap.separate left leftMember right rightMember (by omega)
  have leftHeader := heap.size_pos leftMember
  have rightHeader := heap.size_pos rightMember
  simp only [Span.Separate, Span.stop, range, metadataSize] at separate leftHeader rightHeader
  omega

theorem Heap.reachable_mem (heap : Heap manager types memory objects) {roots : List RootSet}
    (rooted : ∀ ptr ∈ roots.flatMap RootSet.iterPointers, ptr ∈ objects)
    (reachable : manager.Reachable types memory roots obj) : obj ∈ objects :=
  GraphSearch.Reachable.closed reachable rooted fun parent child member pointed =>
    heap.closed parent member child pointed

theorem SameBodies.shape (same : SameBodies manager types memory later objects)
    (member : obj ∈ objects) (shape : Shape manager types memory obj size slots) :
    Shape manager types later obj size slots := by
  refine shape.same_body ?_
  have body := same obj member
  rwa [shape.sizeOf_eq] at body

section Same

variable (heap : Heap manager types memory objects)
  (same : SameBodies manager types memory later objects)

include heap same

theorem Heap.same_size (member : obj ∈ objects) :
    manager.sizeOf types later obj = manager.sizeOf types memory obj := by
  obtain ⟨size, slots, shape⟩ := heap.shaped obj member
  rw [(same.shape member shape).sizeOf_eq, shape.sizeOf_eq]

theorem Heap.same_children (member : obj ∈ objects) :
    manager.children types later obj = manager.children types memory obj := by
  obtain ⟨size, slots, shape⟩ := heap.shaped obj member
  have body := same obj member
  rw [shape.sizeOf_eq] at body
  rw [(same.shape member shape).children_eq, shape.children_eq, shape.same_pointers body]

theorem Heap.same_heap : Heap manager types later objects where
  shaped := by
    intro obj member
    obtain ⟨size, slots, shape⟩ := heap.shaped obj member
    exact ⟨size, slots, same.shape member shape⟩
  closed := by
    intro obj member child pointed
    rw [heap.same_children same member] at pointed
    exact heap.closed obj member child pointed
  separate := by
    intro left leftMember right rightMember different
    have separate := heap.separate left leftMember right rightMember different
    simpa only [range, heap.same_size same leftMember, heap.same_size same rightMember]
      using separate

end Same

theorem Heap.setMarked (heap : Heap manager types memory objects) {obj : Nat} (member : obj ∈ objects)
    (bit : Bit) : SameBodies manager types memory (memory.setMarked obj bit) objects := by
  intro other otherMember
  by_cases same : other = obj
  · subst same
    exact .setMarked memory other _ bit
  · refine .of_agrees (heap.size_pos otherMember) ?_
    intro address inside
    refine Memory.setMarked_of_ne _ _ ?_
    intro reached
    rw [reached] at inside
    have apart := heap.separate other otherMember obj member same
    have header := heap.size_pos member
    refine apart.not_contains inside ⟨Nat.le_refl _, ?_⟩
    simp only [metadataSize] at header
    simp only [Span.stop, range]
    omega

end TypeManager

end UwUGC
