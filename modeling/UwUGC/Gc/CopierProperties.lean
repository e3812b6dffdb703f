import UwUGC.Object.Shape
import UwUGC.Gc.Copier

/-! What the copier makes of a page: every record that the lookup gives it ends up as an image
of its object, and the rest of the page is zero. -/

set_option autoImplicit false

namespace UwUGC

open Gc

variable {Types : Type} {manager : TypeManager Types} {types : Types}

/-- An object with its pointers replaced by the updater, and otherwise word for word. -/
structure Image (updater : Nat → Except Panic Nat) (memory later : Memory) (obj moved size : Nat)
    (slots : List Nat) : Prop where
  null : ∀ slot ∈ slots, memory.data obj slot = 0 → later.data moved slot = 0
  pointer : ∀ slot ∈ slots, memory.data obj slot ≠ 0 →
    updater (memory.data obj slot) = .ok (later.data moved slot)
  rest : ∀ offset < size, (∀ slot ∈ slots, offset ≠ metadataSize + slot) →
    later (moved + offset) = memory (obj + offset)

section Image

variable {updater : Nat → Except Panic Nat} {memory later before last : Memory} {obj moved place size : Nat}
  {slots : List Nat}

theorem Image.congr (image : Image updater memory later obj moved size slots)
    (within : ∀ slot ∈ slots, metadataSize + slot + 8 ≤ size)
    (source : ∀ offset < size, before (obj + offset) = memory (obj + offset))
    (same : ∀ offset < size, last (place + offset) = later (moved + offset)) :
    Image updater before last obj place size slots := by
  have read (slot : Nat) (member : slot ∈ slots) : before.data obj slot = memory.data obj slot := by
    have inside := within slot member
    simpa only [Memory.data, Nat.add_assoc] using source (metadataSize + slot) (by omega)
  have written (slot : Nat) (member : slot ∈ slots) : last.data place slot = later.data moved slot := by
    have inside := within slot member
    simpa only [Memory.data, Nat.add_assoc] using same (metadataSize + slot) (by omega)
  constructor
  case null =>
    intro slot member null
    rw [written slot member]
    exact image.null slot member (read slot member ▸ null)
  case pointer =>
    intro slot member pointer
    rw [written slot member, read slot member]
    exact image.pointer slot member (read slot member ▸ pointer)
  case rest =>
    intro offset inside outside
    rw [same offset inside, source offset inside]
    exact image.rest offset inside outside

theorem Image.metadata (image : Image updater memory later obj moved size slots) (header : metadataSize ≤ size) :
    later.metadata moved = memory.metadata obj := by
  simp only [metadataSize] at header
  have word := image.rest 0 (by omega) (by simp only [metadataSize]; omega)
  have payload := image.rest 8 (by omega) (by simp only [metadataSize]; omega)
  simp only [Nat.add_zero] at word
  simp only [Memory.metadata, Memory.header, word, payload]

theorem Image.shape (image : Image updater memory later obj moved size slots)
    (shape : manager.Shape types memory obj size slots) : manager.Shape types later moved size slots := by
  refine shape.moved (by rw [image.metadata shape.header_le]) ?_
  intro offset inside outside
  have kept := image.rest (metadataSize + offset) inside ?_
  · simpa only [Memory.data, Nat.add_assoc] using kept
  · intro slot member same
    exact outside (Nat.add_left_cancel same ▸ member)

end Image

namespace Gc.CopierActive

variable {copier : CopierActive} {memory buffer filled : Memory} {pageRange : Span} {record : RelocationRecord}
  {slots : List Nat}

/-- How the copier updates a pointer. -/
def updater (copier : CopierActive) : Nat → Except Panic Nat :=
  relocate copier.relocRegistry copier.heap "Cant find relocation record"

def source (copier : CopierActive) (record : RelocationRecord) : Nat := copier.fromMm.baseAddr + record.src

section Copy

variable {obj dest size : Nat}

theorem movable_copy (movable : manager.Movable types memory obj size slots) :
    manager.Movable types (buffer.copy memory obj dest size) dest size slots := by
  have whole : Image .ok memory (buffer.copy memory obj dest size) obj dest size [] :=
    ⟨by simp, by simp, fun offset inside _ => Memory.copy_inside inside⟩
  refine movable.moved (by rw [whole.metadata movable.shape.header_le]) ?_
  intro offset inside _
  simpa only [Memory.data, Nat.add_assoc] using
    @Memory.copy_inside buffer memory obj dest size (metadataSize + offset) inside

theorem data_copy (shape : manager.Shape types memory obj size slots) {slot : Nat}
    (member : slot ∈ slots) : Memory.data (buffer.copy memory obj dest size) dest slot = memory.data obj slot := by
  have within := shape.slot_within member
  simpa only [Memory.data, Nat.add_assoc] using
    @Memory.copy_inside buffer memory obj dest size (metadataSize + slot) (by omega)

end Copy

theorem copyRecord_eq_ok (movable : manager.Movable types memory (copier.source record) record.size slots)
    (copied : copyRecord manager types copier memory pageRange record buffer = .ok filled) :
    pageRange.start ≤ record.dest ∧
      Image copier.updater memory filled (copier.source record) (record.dest - pageRange.start) record.size slots ∧
      ∀ address, ¬ (Span.mk (record.dest - pageRange.start) record.size).Contains address →
        filled address = buffer address := by
  simp only [copyRecord, bind_eq_ok, checkedSub_eq_ok] at copied
  obtain ⟨_, _, _, _, _, _, _, ⟨above, rfl⟩, updated⟩ := copied
  generalize record.dest - pageRange.start = dest at updated ⊢
  change manager.updateGcPointers types copier.updater (buffer.copy memory (copier.source record) dest record.size)
    dest = _ at updated
  have shape := movable.shape
  rw [(movable_copy movable).update_eq] at updated
  obtain ⟨slotted, kept⟩ := TypeManager.updateEach_eq_ok movable.nodup updated
  refine ⟨above, ⟨?_, ?_, ?_⟩, ?_⟩
  · intro slot member null
    have result := slotted slot member
    rwa [if_pos ((data_copy shape member).trans null)] at result
  · intro slot member pointer
    have result := slotted slot member
    simp only [data_copy shape member, if_neg pointer] at result
    exact result
  · intro offset inside outside
    rw [kept (dest + offset), Memory.copy_inside inside]
    intro slot member same
    exact outside slot member (by omega)
  · intro address outside
    rw [kept address, Memory.copy_outside outside]
    intro slot member same
    have inside := shape.slot_within member
    apply outside
    simp only [Span.Contains, Span.stop]
    omega

theorem copyRecords_eq_ok {records : List RelocationRecord}
    (movable : ∀ record ∈ records, ∃ slots, manager.Movable types memory (copier.source record) record.size slots)
    (apart : records.Pairwise fun left right => left.getDestRange.Separate right.getDestRange)
    (copied : copyRecords manager types copier memory pageRange records buffer = .ok filled) :
    (∀ record ∈ records, pageRange.start ≤ record.dest) ∧
      (∀ record ∈ records, ∀ slots, manager.Shape types memory (copier.source record) record.size slots →
        Image copier.updater memory filled (copier.source record) (record.dest - pageRange.start) record.size slots) ∧
      ∀ address, (∀ record ∈ records, ¬ (Span.mk (record.dest - pageRange.start) record.size).Contains address) →
        filled address = buffer address := by
  induction records generalizing buffer with
  | nil =>
      cases copied
      exact ⟨by simp, by simp, fun _ _ => rfl⟩
  | cons first rest ih =>
      obtain ⟨middle, head, tail⟩ := bind_eq_ok.mp copied
      obtain ⟨firstApart, restApart⟩ := List.pairwise_cons.mp apart
      obtain ⟨slots, movableFirst⟩ := movable first List.mem_cons_self
      obtain ⟨above, image, kept⟩ := copyRecord_eq_ok movableFirst head
      obtain ⟨restAbove, images, restKept⟩ :=
        ih (fun record member => movable record (List.mem_cons_of_mem _ member)) restApart tail
      refine ⟨?_, ?_, ?_⟩
      · intro record member
        rcases List.mem_cons.mp member with same | later
        · exact same ▸ above
        · exact restAbove record later
      · intro record member others otherShape
        rcases List.mem_cons.mp member with same | later
        · subst same
          obtain ⟨_, rfl⟩ := movableFirst.shape.unique otherShape
          refine image.congr (fun slot inside => otherShape.slot_within inside) (fun _ _ => rfl) ?_
          -- The records behind it leave its part of the buffer alone.
          intro offset inside
          refine restKept _ fun other member contains => ?_
          have separate := firstApart other member
          have otherAbove := restAbove other member
          simp only [Span.Contains, Span.stop, Span.Separate, RelocationRecord.getDestRange] at contains separate
          omega
        · exact images record later others otherShape
      · intro address outside
        rw [restKept address fun record member => outside record (List.mem_cons_of_mem _ member)]
        exact kept address (outside first List.mem_cons_self)

theorem copyRecord_returns (movable : manager.Movable types memory (copier.source record) record.size slots)
    (inside : record.getDestRange.Within pageRange)
    (mapped : ∀ slot ∈ slots, memory.data (copier.source record) slot ≠ 0 →
      ∃ value, copier.updater (memory.data (copier.source record) slot) = .ok value) :
    ∃ filled, copyRecord manager types copier memory pageRange record buffer = .ok filled := by
  have shape := movable.shape
  have header := shape.header_le
  obtain ⟨lower, upper⟩ := inside
  simp only [Span.stop, RelocationRecord.getDestRange, metadataSize] at lower upper header
  have first : pageRange.Contains record.dest := by
    simp only [Span.Contains, Span.stop]
    omega
  have last : pageRange.Contains (record.dest + record.size - 1) := by
    simp only [Span.Contains, Span.stop]
    omega
  have below : 1 ≤ record.dest + record.size := by omega
  generalize place : record.dest - pageRange.start = dest
  have returned : ∃ final, TypeManager.updateEach copier.updater dest slots
      (buffer.copy memory (copier.source record) dest record.size) = .ok final := by
    refine TypeManager.updateEach_returns movable.nodup ?_
    intro slot member pointer
    rw [data_copy shape member] at pointer ⊢
    exact mapped slot member pointer
  rw [← (movable_copy movable).update_eq] at returned
  obtain ⟨final, updated⟩ := returned
  refine ⟨final, ?_⟩
  simp only [copyRecord, RelocationRecord.getDestRange, Span.stop, assert, first, checkedSub, below, last, lower, place,
    decide_true, if_true, bind, Except.bind]
  exact updated

theorem copyRecords_returns {records : List RelocationRecord}
    (copies : ∀ record ∈ records, ∃ slots, manager.Movable types memory (copier.source record) record.size slots ∧
      record.getDestRange.Within pageRange ∧
      ∀ slot ∈ slots, memory.data (copier.source record) slot ≠ 0 →
        ∃ value, copier.updater (memory.data (copier.source record) slot) = .ok value) :
    ∃ filled, copyRecords manager types copier memory pageRange records buffer = .ok filled := by
  induction records generalizing buffer with
  | nil => exact ⟨buffer, rfl⟩
  | cons first rest ih =>
      obtain ⟨slots, movable, inside, mapped⟩ := copies first List.mem_cons_self
      have copied : ∃ middle, copyRecord manager types copier memory pageRange first buffer = .ok middle :=
        copyRecord_returns movable inside mapped
      obtain ⟨middle, copied⟩ := copied
      rw [copyRecords, copied]
      exact ih fun record member => copies record (List.mem_cons_of_mem _ member)

end Gc.CopierActive

end UwUGC
