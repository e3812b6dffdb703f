import UwUGC.Object.Heap

/-! A store into a slot of an object, and a new object beside the others. -/

set_option autoImplicit false

namespace UwUGC.TypeManager

variable {Types : Type} {manager : TypeManager Types} {types : Types} {memory later : Memory}
  {objects slots : List Nat} {obj other size slot value ptr : Nat}

theorem Heap.metadata_setMarked_of_ne (heap : Heap manager types memory objects) (member : obj ∈ objects)
    (otherMember : other ∈ objects) (different : other ≠ obj) (bit : Bit) :
    (memory.setMarked obj bit).metadata other = memory.metadata other := by
  apply Memory.metadata_congr
  · exact Memory.setMarked_of_ne _ _ different
  · exact Memory.setMarked_of_ne _ _ (heap.header_apart member otherMember).symm

/-- The memory behind a store. -/
def stored (memory : Memory) (obj slot value : Nat) : Memory :=
  Function.update memory (obj + metadataSize + slot) value

theorem stored_of_ne {address : Nat} (different : address ≠ obj + metadataSize + slot) :
    stored memory obj slot value address = memory address :=
  Function.update_of_ne different _ _

theorem stored_here : (stored memory obj slot value).data obj slot = value :=
  Function.update_self _ _ _

theorem metadata_stored : (stored memory obj slot value).metadata obj = memory.metadata obj := by
  apply Memory.metadata_congr <;> apply stored_of_ne <;> simp only [metadataSize] <;> omega

theorem data_stored {offset : Nat} (different : offset ≠ slot) :
    (stored memory obj slot value).data obj offset = memory.data obj offset := by
  apply stored_of_ne
  intro same
  exact different (Nat.add_left_cancel same)

theorem Shape.stored (shape : Shape manager types memory obj size slots) (member : slot ∈ slots) :
    Shape manager types (stored memory obj slot value) obj size slots := by
  apply shape.moved
  · rw [metadata_stored]
  · intro offset _ outside
    apply data_stored
    intro same
    exact outside (same ▸ member)

theorem pointers_stored {pointed : Nat} (member : pointed ∈ pointers (stored memory obj slot value) obj slots) :
    pointed = value ∨ pointed ∈ pointers memory obj slots := by
  simp only [pointers, List.mem_filter, List.mem_map] at member ⊢
  obtain ⟨⟨offset, slotted, rfl⟩, nonnull⟩ := member
  by_cases same : offset = slot
  · subst same
    exact .inl stored_here
  · rw [data_stored same] at nonnull ⊢
    exact .inr ⟨⟨offset, slotted, rfl⟩, nonnull⟩

section Store

variable (heap : Heap manager types memory objects) (member : obj ∈ objects)
  (shape : Shape manager types memory obj size slots) (slotted : slot ∈ slots)

include heap member shape slotted

theorem Heap.stored_agrees (otherMember : other ∈ objects) (different : other ≠ obj) :
    memory.Agrees (stored memory obj slot value) (manager.range types memory other) := by
  intro address inside
  apply stored_of_ne
  intro reached
  have within := shape.slot_within slotted
  have apart := heap.separate other otherMember obj member different
  refine apart.not_contains inside ?_
  rw [shape.range_eq]
  simp only [Span.Contains, Span.stop]
  omega

theorem Heap.stored_body (otherMember : other ∈ objects) (different : other ≠ obj) :
    SameBody memory (stored memory obj slot value) other (manager.sizeOf types memory other) :=
  .of_agrees (heap.size_pos otherMember) (heap.stored_agrees member shape slotted otherMember different)

theorem Heap.stored_shape {otherSize : Nat} {otherSlots : List Nat} (otherMember : other ∈ objects)
    (otherShape : Shape manager types memory other otherSize otherSlots) :
    Shape manager types (stored memory obj slot value) other otherSize otherSlots := by
  by_cases same : other = obj
  · subst same
    obtain ⟨rfl, rfl⟩ := shape.unique otherShape
    exact shape.stored slotted
  · have body : SameBody memory (stored memory obj slot value) other (manager.sizeOf types memory other) :=
      heap.stored_body member shape slotted otherMember same
    rw [otherShape.sizeOf_eq] at body
    exact otherShape.same_body body

theorem Heap.stored_size (otherMember : other ∈ objects) :
    manager.sizeOf types (stored memory obj slot value) other = manager.sizeOf types memory other := by
  obtain ⟨otherSize, otherSlots, otherShape⟩ := heap.shaped other otherMember
  rw [(heap.stored_shape member shape slotted otherMember otherShape).sizeOf_eq, otherShape.sizeOf_eq]

theorem Heap.stored_metadata (otherMember : other ∈ objects) :
    (stored memory obj slot value).metadata other = memory.metadata other := by
  by_cases same : other = obj
  · rw [same, metadata_stored]
  · have agrees : memory.Agrees (stored memory obj slot value) (manager.range types memory other) :=
      heap.stored_agrees member shape slotted otherMember same
    have header := heap.size_pos otherMember
    simp only [metadataSize] at header
    apply Memory.metadata_congr <;> apply agrees <;> simp only [Span.Contains, Span.stop, range] <;> omega

theorem Heap.stored_children (otherMember : other ∈ objects) (different : other ≠ obj) :
    manager.children types (stored memory obj slot value) other = manager.children types memory other := by
  obtain ⟨otherSize, otherSlots, otherShape⟩ := heap.shaped other otherMember
  have body : SameBody memory (stored memory obj slot value) other (manager.sizeOf types memory other) :=
    heap.stored_body member shape slotted otherMember different
  rw [otherShape.sizeOf_eq] at body
  rw [(otherShape.same_body body).children_eq, otherShape.children_eq, otherShape.same_pointers body]

theorem Heap.stored_pointed {child : Nat} (otherMember : other ∈ objects)
    (pointed : child ∈ manager.children types (stored memory obj slot value) other) :
    other = obj ∧ child = value ∨ child ∈ manager.children types memory other := by
  by_cases same : other = obj
  · subst same
    rw [(shape.stored slotted).children_eq] at pointed
    rw [shape.children_eq]
    rcases pointers_stored pointed with new | old
    · exact .inl ⟨rfl, new⟩
    · exact .inr old
  · rw [heap.stored_children member shape slotted otherMember same] at pointed
    exact .inr pointed

theorem Heap.store (pointed : value ≠ 0 → value ∈ objects) : Heap manager types (stored memory obj slot value) objects where
  shaped := by
    intro other otherMember
    obtain ⟨otherSize, otherSlots, otherShape⟩ := heap.shaped other otherMember
    exact ⟨otherSize, otherSlots, heap.stored_shape member shape slotted otherMember otherShape⟩
  closed := by
    intro other otherMember child childPointed
    rcases heap.stored_pointed member shape slotted otherMember childPointed with ⟨rfl, rfl⟩ | old
    · apply pointed
      rw [(shape.stored slotted).children_eq, pointers, List.mem_filter] at childPointed
      exact of_decide_eq_true childPointed.2
    · exact heap.closed other otherMember child old
  separate := by
    intro left leftMember right rightMember different
    have separate := heap.separate left leftMember right rightMember different
    simpa only [range, heap.stored_size member shape slotted leftMember,
      heap.stored_size member shape slotted rightMember] using separate

end Store

section Alloc

variable (heap : Heap manager types memory objects)
  (agrees : ∀ obj ∈ objects, memory.Agrees later (manager.range types memory obj))

include heap agrees

theorem Heap.beside_bodies : SameBodies manager types memory later objects :=
  fun obj member => .of_agrees (heap.size_pos member) (agrees obj member)

theorem Heap.beside_metadata (member : obj ∈ objects) : later.metadata obj = memory.metadata obj := by
  have header := heap.size_pos member
  simp only [metadataSize] at header
  apply Memory.metadata_congr <;> apply agrees obj member <;> simp only [Span.Contains, Span.stop, range] <;> omega

/-- A new object apart from the others, that points to some of them. -/
theorem Heap.beside (shape : Shape manager types later ptr size slots)
    (apart : ∀ obj ∈ objects, (manager.range types memory obj).Separate ⟨ptr, size⟩)
    (pointed : ∀ child ∈ manager.children types later ptr, child ∈ objects) :
    Heap manager types later (ptr :: objects) := by
  have same := heap.beside_bodies agrees
  have old := heap.same_heap same
  have separate (obj : Nat) (member : obj ∈ objects) :
      (manager.range types later obj).Separate (manager.range types later ptr) := by
    rw [shape.range_eq, range, heap.same_size same member]
    exact apart obj member
  constructor
  · intro obj member
    rcases List.mem_cons.mp member with rfl | before
    · exact ⟨size, slots, shape⟩
    · exact old.shaped obj before
  · intro obj member child childPointed
    apply List.mem_cons_of_mem
    rcases List.mem_cons.mp member with rfl | before
    · exact pointed child childPointed
    · exact old.closed obj before child childPointed
  · intro left leftMember right rightMember different
    rcases List.mem_cons.mp leftMember with rfl | leftBefore
    · rcases List.mem_cons.mp rightMember with rfl | rightBefore
      · exact absurd rfl different
      · exact (separate right rightBefore).symm
    · rcases List.mem_cons.mp rightMember with rfl | rightBefore
      · exact separate left leftBefore
      · exact old.separate left leftBefore right rightBefore different

end Alloc

end UwUGC.TypeManager
