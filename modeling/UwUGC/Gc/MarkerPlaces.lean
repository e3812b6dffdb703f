import UwUGC.Gc.MarkerProperties
import UwUGC.Gc.RelocationMapProperties
import UwUGC.Mm.CompactionRevisits

/-! Where the marker places the objects it records. Whatever runs in between, the records are
one compaction of their sizes, in the order of the records. -/

set_option autoImplicit false

namespace UwUGC.Gc

open Mm PageTable

variable {Types : Type} {manager : TypeManager Types} {types : Types} {heap : HeapInfo} {bit : Bit} {memory later : Memory}
  {table : PageTable} {marking next : Marking}

namespace Marking

def records (marking : Marking) : List RelocationRecord := marking.registry.data.recordsSortedByDest

/-- The records are what a compaction of their sizes into an empty table gives. -/
structure Packed (heap : HeapInfo) (table : PageTable) (marking : Marking) : Prop where
  sources : marking.registry.data.recordsSortedBySrc = marking.records
  compacted : ∃ served, Context.new.allocEach table.clear (marking.records.map RelocationRecord.size) =
      .ok (served, marking.moveContext, marking.pageTable) ∧
    marking.records.map (fun record => heap.toSpace + record.dest) = served.map Prod.fst

theorem Packed.start (roots : List RootSet) : Packed heap table (.start .new roots table .new) :=
  ⟨rfl, [], rfl, rfl⟩

theorem Packed.scan {obj : Nat} (packed : Packed heap table marking)
    (scanned : marking.scan manager types heap memory obj = .ok next) : Packed heap table next := by
  obtain ⟨size, ptr, idx, moveContext, pageTable, pointed, _, served, _, above, _, rfl⟩ := scan_eq_ok.mp scanned
  obtain ⟨places, returned, placed⟩ := packed.compacted
  refine ⟨?_, places ++ [(ptr, idx)], ?_, ?_⟩
  · simp only [Marking.scanned, records, RegistryBuilder.insert, packed.sources]
  · simpa only [Marking.scanned, records, RegistryBuilder.insert, List.map_append, List.map_cons, List.map_nil] using
      allocEach_concat returned served
  · simp only [Marking.scanned, records, RegistryBuilder.insert, List.map_append, List.map_cons, List.map_nil,
      Nat.add_sub_cancel' above]
    rw [← placed, records]

/-- A step of the marker keeps it, wherever the mutators have got to. -/
theorem Packed.step (packed : Packed heap table marking)
    (stepped : marking.step manager types heap bit memory = .ok (some (later, next))) : Packed heap table next := by
  rcases step_cases stepped with ⟨obj, _, marked⟩ | ⟨obj, _, _, scanned⟩ | ⟨_, _, _, _, _, rfl⟩ |
    ⟨_, _, _, _, _, _, rfl⟩
  · simp only [mark] at marked
    split at marked <;> cases marked <;> exact ⟨packed.sources, packed.compacted⟩
  · exact packed.scan scanned
  · exact ⟨packed.sources, packed.compacted⟩
  · exact ⟨packed.sources, packed.compacted⟩

theorem Packed.steps {before final : Memory × Marking} (packed : Packed heap table before.2)
    (ran : Steps manager types heap bit before final) : Packed heap table final.2 := by
  induction ran with
  | refl => exact packed
  | tail _ stepped ih => exact ih.step stepped

theorem places_eq {records : List RelocationRecord} {served : List (Nat × Nat)}
    (placed : records.map (fun record => heap.toSpace + record.dest) = served.map Prod.fst) :
    (places served (records.map RelocationRecord.size)).map (fun place => (place.1.1, place.2)) =
      records.map fun record => (heap.toSpace + record.dest, record.size) := by
  induction records generalizing served with
  | nil => simp [places]
  | cons first rest ih =>
      cases served with
      | nil => simp at placed
      | cons place later =>
          simp only [List.map_cons, List.cons.injEq] at placed
          obtain ⟨head, tail⟩ := placed
          have rested := ih tail
          simp only [places, List.map_cons, List.zip_cons_cons, head] at rested ⊢
          rw [rested]

/-- The allocator answers the marker, for whole words. -/
theorem Packed.serves (packed : Packed heap table marking) (length : table.pageTable.length = table.nrPages)
    (nonnull : table.baseAddr ≠ 0) {size : Nat} (multiple : size % 8 = 0) :
    ∃ result moveContext pageTable,
      marking.moveContext.allocFromPageTable marking.pageTable size = .ok (result, moveContext, pageTable) := by
  obtain ⟨served, returned, _⟩ := packed.compacted
  obtain ⟨_, base, _⟩ := allocEach_pages (.clear length) returned
  obtain ⟨_, meets⟩ := allocEach_meets (.clear length) returned
  exact meets.fits.returns meets.placed.indexed (base ▸ nonnull) multiple

/-- Each record lies in a page of the marker's table, and each page starts with one. -/
theorem Packed.pages (packed : Packed heap table marking) (length : table.pageTable.length = table.nrPages) :
    marking.pageTable.Placed ∧ marking.pageTable.baseAddr = table.baseAddr ∧
    marking.pageTable.nrPages = table.nrPages ∧
    (∀ record ∈ marking.records, marking.pageTable.Holds ⟨heap.toSpace + record.dest, record.size⟩) ∧
    ∀ idx page, marking.pageTable.slot idx = some page →
      ∃ record ∈ marking.records, heap.toSpace + record.dest = page.start := by
  obtain ⟨served, returned, placed⟩ := packed.compacted
  obtain ⟨tablePlaced, base, nrPages, _, inPages, starts⟩ := allocEach_pages (.clear length) returned
  have pairs := places_eq placed
  refine ⟨tablePlaced, base, nrPages, ?_, ?_⟩
  · intro record member
    have listed : (heap.toSpace + record.dest, record.size) ∈
        (places served (marking.records.map RelocationRecord.size)).map fun place => (place.1.1, place.2) :=
      pairs ▸ List.mem_map_of_mem member
    obtain ⟨place, inPlaces, same⟩ := List.mem_map.mp listed
    have held := inPages place inPlaces
    rw [(Prod.mk.inj same).1, (Prod.mk.inj same).2] at held
    exact held
  · intro idx page found
    rcases starts idx page found with ⟨old, there, _⟩ | ⟨place, inPlaces, start⟩
    · rw [slot_clear] at there
      cases there
    · have listed : (place.1.1, place.2) ∈ marking.records.map fun record => (heap.toSpace + record.dest, record.size) :=
        pairs ▸ List.mem_map.mpr ⟨place, inPlaces, rfl⟩
      obtain ⟨record, member, same⟩ := List.mem_map.mp listed
      exact ⟨record, member, (Prod.mk.inj same).1.trans start⟩

/-- Recorded in page order, the destinations ascend. -/
theorem Packed.ascending (packed : Packed heap table marking) (length : table.pageTable.length = table.nrPages)
    (ordered : InPageOrder (marking.records.map RelocationRecord.size)) :
    Ascending RelocationRecord.getDestRange marking.records := by
  obtain ⟨served, returned, placed⟩ := packed.compacted
  have ascending := (allocEach_ascending (.clear length) (Nat.zero_le _) (by simp) ordered returned).2
  have mapped : ((places served (marking.records.map RelocationRecord.size)).map fun place => (place.1.1, place.2)).Pairwise
      fun left right => left.1 + left.2 ≤ right.1 := List.pairwise_map.mpr ascending
  rw [places_eq placed, List.pairwise_map] at mapped
  refine mapped.imp ?_
  intro left right order
  simp only [Span.stop, RelocationRecord.getDestRange]
  omega

/-- Out of page order, some record lies in a page that an earlier record opened, and that ends
below the record before it. -/
theorem Packed.revisits (packed : Packed heap table marking) (length : table.pageTable.length = table.nrPages)
    (unordered : ¬ InPageOrder (marking.records.map RelocationRecord.size)) :
    ∃ front before back behind, marking.records = front ++ before :: back :: behind ∧
      ∃ idx page, marking.pageTable.slot idx = some page ∧ (Span.mk (heap.toSpace + back.dest) back.size).Within page.range ∧
        page.range.stop ≤ heap.toSpace + before.dest ∧ ∃ opener ∈ front, heap.toSpace + opener.dest = page.start := by
  obtain ⟨served, returned, placed⟩ := packed.compacted
  obtain ⟨front, before, back, behind, split, page, found, within, below, opener, member, start⟩ :=
    @allocEach_revisits _ _ _ _ _ _ _ none [] (.clear length) (fun _ => slot_clear table)
      (fun idx page there => by
        rw [slot_clear] at there
        cases there) (by simp) unordered returned
  have pairs := places_eq placed
  rw [← List.nil_append (places _ _), split, List.map_append, List.map_cons, List.map_cons] at pairs
  obtain ⟨front', rest, records, frontPairs, restPairs⟩ := List.map_eq_append_iff.mp pairs.symm
  obtain ⟨before', rest', rfl, beforePair, restPairs⟩ := List.map_eq_cons_iff.mp restPairs
  obtain ⟨back', behind', rfl, backPair, _⟩ := List.map_eq_cons_iff.mp restPairs
  have place {record : RelocationRecord} {at_ : (Nat × Nat) × Nat}
      (same : (heap.toSpace + record.dest, record.size) = (at_.1.1, at_.2)) :
      heap.toSpace + record.dest = at_.1.1 ∧ record.size = at_.2 := Prod.mk.inj same
  refine ⟨front', before', back', behind', records, back.1.2, page, found, ?_, ?_, ?_⟩
  · rw [(place backPair).1, (place backPair).2]
    exact within
  · rw [(place beforePair).1]
    exact below
  · have listed : (opener.1.1, opener.2) ∈ front.map fun place => (place.1.1, place.2) :=
      List.mem_map.mpr ⟨opener, member, rfl⟩
    rw [← frontPairs] at listed
    obtain ⟨record, inFront, same⟩ := List.mem_map.mp listed
    exact ⟨record, inFront, (place same).1.trans start⟩

end Marking

end UwUGC.Gc
