import UwUGC.Object.Heap
import UwUGC.Gc.CopierProperties

/-! A heap in which every object has gone to a place of its own: the images of its objects are
a heap of the same graph. -/

set_option autoImplicit false

namespace UwUGC

namespace TypeManager

variable {Types : Type} {manager : TypeManager Types} {types later : Types} {memory after : Memory}
  {objects chosen : List Nat} {place : Nat → Nat} {obj size : Nat} {slots : List Nat}

/-- What the later types say of an object is what the earlier ones said. -/
def KeepsShapes (manager : TypeManager Types) (types later : Types) : Prop :=
  ∀ memory obj size slots, manager.Shape types memory obj size slots → manager.Shape later memory obj size slots

/-- And what could be moved still can be. -/
structure KeepsObjects (manager : TypeManager Types) (types later : Types) : Prop where
  shapes : manager.KeepsShapes types later
  movable : ∀ memory obj size slots, manager.Movable types memory obj size slots → manager.Movable later memory obj size slots

/-- Some of the objects of a heap that are closed under its pointers, with types that keep their shapes. -/
theorem Heap.restrict (heap : Heap manager types memory objects) (members : ∀ obj ∈ chosen, obj ∈ objects)
    (closed : ∀ obj ∈ chosen, ∀ child ∈ manager.children types memory obj, child ∈ chosen)
    (kept : ∀ obj ∈ chosen, ∀ size slots, manager.Shape types memory obj size slots →
      manager.Shape later memory obj size slots) : Heap manager later memory chosen := by
  have same (obj : Nat) (member : obj ∈ chosen) : manager.sizeOf later memory obj = manager.sizeOf types memory obj ∧
      manager.children later memory obj = manager.children types memory obj := by
    obtain ⟨size, slots, shape⟩ := heap.shaped obj (members obj member)
    have now := kept obj member size slots shape
    exact ⟨now.sizeOf_eq.trans shape.sizeOf_eq.symm, now.children_eq.trans shape.children_eq.symm⟩
  constructor
  case shaped =>
    intro obj member
    obtain ⟨size, slots, shape⟩ := heap.shaped obj (members obj member)
    exact ⟨size, slots, kept obj member size slots shape⟩
  case closed =>
    intro obj member child pointed
    rw [(same obj member).2] at pointed
    exact closed obj member child pointed
  case separate =>
    intro left leftMember right rightMember different
    have separate := heap.separate left (members left leftMember) right (members right rightMember) different
    simpa only [range, (same left leftMember).1, (same right rightMember).1] using separate

/-- Each object has an image at its place, with its pointers led to the places of what they pointed to. -/
structure Moves (manager : TypeManager Types) (types : Types) (memory after : Memory) (place : Nat → Nat)
    (objects : List Nat) : Prop where
  image : ∀ obj ∈ objects, ∀ size slots, manager.Shape types memory obj size slots →
    Image (fun ptr => .ok (place ptr)) memory after obj (place obj) size slots
  nonnull : ∀ obj ∈ objects, place obj ≠ 0
  apart : ∀ left ∈ objects, ∀ right ∈ objects, left ≠ right →
    (Span.mk (place left) (manager.sizeOf types memory left)).Separate
      ⟨place right, manager.sizeOf types memory right⟩

section Moves

variable (moves : Moves manager types memory after place objects) (heap : Heap manager types memory objects)

include moves

theorem Moves.metadata (heap : Heap manager types memory objects) (member : obj ∈ objects) :
    after.metadata (place obj) = memory.metadata obj := by
  obtain ⟨size, slots, shape⟩ := heap.shaped obj member
  exact (moves.image obj member size slots shape).metadata shape.header_le

theorem Moves.slot_eq (member : obj ∈ objects) (shape : manager.Shape types memory obj size slots) {slot : Nat}
    (inside : slot ∈ slots) : after.data (place obj) slot =
      if memory.data obj slot = 0 then 0 else place (memory.data obj slot) := by
  have image := moves.image obj member size slots shape
  split
  · next null => exact image.null slot inside null
  · next pointer => exact (Except.ok.inj (image.pointer slot inside pointer)).symm

theorem Moves.injective (heap : Heap manager types memory objects) {left right : Nat} (leftMember : left ∈ objects)
    (rightMember : right ∈ objects) (same : place left = place right) : left = right := by
  by_contra different
  have apart := moves.apart left leftMember right rightMember different
  have leftSize := heap.size_pos leftMember
  have rightSize := heap.size_pos rightMember
  simp only [metadataSize] at leftSize rightSize
  simp only [Span.Separate, Span.stop] at apart
  omega

theorem Moves.shape (member : obj ∈ objects) (shape : manager.Shape types memory obj size slots) :
    manager.Shape types after (place obj) size slots :=
  (moves.image obj member size slots shape).shape shape

include heap

theorem Moves.sizeOf_eq (member : obj ∈ objects) :
    manager.sizeOf types after (place obj) = manager.sizeOf types memory obj := by
  obtain ⟨size, slots, shape⟩ := heap.shaped obj member
  rw [(moves.shape member shape).sizeOf_eq, shape.sizeOf_eq]

theorem Moves.children_eq (member : obj ∈ objects) :
    manager.children types after (place obj) = (manager.children types memory obj).map place := by
  obtain ⟨size, slots, shape⟩ := heap.shaped obj member
  have closed := heap.closed obj member
  rw [shape.children_eq] at closed
  rw [(moves.shape member shape).children_eq, shape.children_eq]
  simp only [pointers, List.filter_map, List.map_map]
  have same : ∀ slot ∈ slots, (decide (after.data (place obj) slot ≠ 0)) = decide (memory.data obj slot ≠ 0) := by
    intro slot inside
    rw [moves.slot_eq member shape inside, decide_eq_decide]
    split
    · next null => simp [null]
    · next pointer =>
        have pointed : memory.data obj slot ∈ pointers memory obj slots :=
          List.mem_filter.mpr ⟨List.mem_map_of_mem inside, decide_eq_true pointer⟩
        exact iff_of_true (moves.nonnull _ (closed _ pointed)) pointer
  have filtered : slots.filter ((fun word => decide (word ≠ 0)) ∘ after.data (place obj)) =
      slots.filter ((fun word => decide (word ≠ 0)) ∘ memory.data obj) := List.filter_congr same
  rw [filtered]
  apply List.map_congr_left
  intro slot listed
  obtain ⟨inside, pointer⟩ := List.mem_filter.mp listed
  rw [moves.slot_eq member shape inside, if_neg (of_decide_eq_true pointer)]
  rfl

theorem Moves.movedHeap : Heap manager types after (objects.map place) := by
  constructor
  case shaped =>
    intro moved member
    obtain ⟨obj, there, rfl⟩ := List.mem_map.mp member
    obtain ⟨size, slots, shape⟩ := heap.shaped obj there
    exact ⟨size, slots, moves.shape there shape⟩
  case closed =>
    intro moved member child pointed
    obtain ⟨obj, there, rfl⟩ := List.mem_map.mp member
    rw [moves.children_eq heap there] at pointed
    obtain ⟨old, oldPointed, rfl⟩ := List.mem_map.mp pointed
    exact List.mem_map_of_mem (heap.closed obj there old oldPointed)
  case separate =>
    intro left leftMember right rightMember different
    obtain ⟨first, firstMember, rfl⟩ := List.mem_map.mp leftMember
    obtain ⟨second, secondMember, rfl⟩ := List.mem_map.mp rightMember
    rw [range, range, moves.sizeOf_eq heap firstMember, moves.sizeOf_eq heap secondMember]
    exact moves.apart first firstMember second secondMember fun same => different (congrArg place same)

end Moves

end TypeManager

end UwUGC
