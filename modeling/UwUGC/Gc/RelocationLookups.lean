import UwUGC.Gc.RelocationMapProperties
import Mathlib.Data.List.Perm.Subperm

/-! What the two lookups of a frozen registry answer for records inserted in any
order. By source every lookup is exact. By destination they all are only when the
records came in one packed row. -/

set_option autoImplicit false

namespace UwUGC.Gc

def RegistryBuilder.insertEach (registry : RegistryBuilder) (records : List RelocationRecord) : RegistryBuilder :=
  records.foldl RegistryBuilder.insert registry

theorem RegistryBuilder.insertEach_records (registry : RegistryBuilder) (records : List RelocationRecord) :
    (registry.insertEach records).data.recordsSortedBySrc = registry.data.recordsSortedBySrc ++ records ∧
      (registry.insertEach records).data.recordsSortedByDest = registry.data.recordsSortedByDest ++ records := by
  induction records generalizing registry with
  | nil => simp [insertEach]
  | cons record rest ih =>
      obtain ⟨src, dest⟩ := ih (registry.insert record)
      simp only [insertEach, List.foldl_cons] at src dest ⊢
      rw [src, dest]
      simp [insert]

namespace FrozenRegistry

/-- The range of the record and the range asked for have a point in common. -/
def Meets (record : RelocationRecord) (dest : Span) : Prop :=
  ∃ point, record.getDestRange.Contains point ∧ dest.Contains point

/-- Exactly the records that meet the range, each once, in ascending order. -/
def ExactByDest (records : List RelocationRecord) (dest : Span) (result : List RelocationRecord) : Prop :=
  (result.Pairwise fun left right => left.dest < right.dest) ∧
    ∀ record, record ∈ result ↔ record ∈ records ∧ Meets record dest

/-- The records stand in one row from the offset on, without gaps. -/
def PackedFrom : Nat → List RelocationRecord → Prop
  | _, [] => True
  | offset, record :: rest => record.dest = offset ∧ PackedFrom (offset + record.size) rest

variable {records : List RelocationRecord} {record : RelocationRecord} {dest : Span}

theorem mem_takeWhile_ascending (ascending : Ascending RelocationRecord.getDestRange records)
    (filled : ∀ record ∈ records, 0 < record.size) (stop : Nat) :
    record ∈ records.takeWhile (fun other => decide (other.getDestRange.start < stop)) ↔
      record ∈ records ∧ record.dest < stop := by
  induction records with
  | nil => simp
  | cons first rest ih =>
      obtain ⟨behind, ascendingRest⟩ := List.pairwise_cons.mp ascending
      have ih := ih ascendingRest fun other member => filled other (List.mem_cons_of_mem _ member)
      rw [List.takeWhile_cons]
      split
      · next before =>
          rw [List.mem_cons, ih, List.mem_cons]
          constructor
          · intro either
            rcases either with same | ⟨member, below⟩
            · exact ⟨.inl same, same ▸ of_decide_eq_true before⟩
            · exact ⟨.inr member, below⟩
          · intro both
            rcases both with ⟨same | member, below⟩
            · exact .inl same
            · exact .inr ⟨member, below⟩
      · next beyond =>
          have reached : stop ≤ first.dest := Nat.le_of_not_lt fun below => beyond (decide_eq_true below)
          refine iff_of_false (by simp) ?_
          intro both
          rcases both with ⟨member, below⟩
          rcases List.mem_cons.mp member with same | later
          · exact absurd (same ▸ below) (Nat.not_lt.mpr reached)
          · have next := behind record later
            simp only [Span.stop, RelocationRecord.getDestRange] at next
            omega

theorem iterate_exact (ascending : Ascending RelocationRecord.getDestRange records)
    (filled : ∀ record ∈ records, 0 < record.size) (length : 0 < dest.length) (member : record ∈ records)
    (inside : record.getDestRange.Contains dest.start) :
    ExactByDest records dest (iterateRecordsInRangeBy records RelocationRecord.getDestRange dest) := by
  obtain ⟨before, behind, rfl⟩ := List.append_of_mem member
  obtain ⟨_, ascendingRest, across⟩ := List.pairwise_append.mp ascending
  have filledRest (other : RelocationRecord) (there : other ∈ record :: behind) : 0 < other.size :=
    filled other (List.mem_append_right _ there)
  rw [iterate_of_ascending ascending inside]
  constructor
  · refine (ascendingRest.sublist (List.takeWhile_sublist _)).imp_of_mem ?_
    intro left right leftMember _ order
    have size := filledRest left ((List.takeWhile_sublist _).subset leftMember)
    simp only [Span.stop, RelocationRecord.getDestRange] at order
    omega
  · intro other
    rw [mem_takeWhile_ascending ascendingRest filledRest]
    constructor
    · rintro ⟨there, below⟩
      have size := filledRest other there
      refine ⟨List.mem_append_right _ there, ?_⟩
      rcases List.mem_cons.mp there with same | later
      · subst same
        exact ⟨dest.start, inside, Nat.le_refl _, Nat.lt_add_of_pos_right length⟩
      · have next := (List.pairwise_cons.mp ascendingRest).1 other later
        obtain ⟨_, upper⟩ := inside
        simp only [Span.stop, RelocationRecord.getDestRange] at next upper
        refine ⟨other.dest, ⟨Nat.le_refl _, Nat.lt_add_of_pos_right size⟩, ?_, below⟩
        omega
    · rintro ⟨there, point, inOther, inDest⟩
      obtain ⟨lower, upper⟩ := inOther
      obtain ⟨from_start, to_stop⟩ := inDest
      refine ⟨?_, Nat.lt_of_le_of_lt lower to_stop⟩
      rcases List.mem_append.mp there with earlier | later
      · -- What stands before the record found ends before the range starts.
        have order := across other earlier record List.mem_cons_self
        obtain ⟨start, _⟩ := inside
        simp only [Span.stop, RelocationRecord.getDestRange] at order upper start
        omega
      · exact later

theorem iterate_nil (outside : ∀ record ∈ records, ¬ record.getDestRange.Contains dest.start) :
    iterateRecordsInRangeBy records RelocationRecord.getDestRange dest = [] := by
  cases result : iterateRecordsInRangeBy records RelocationRecord.getDestRange dest with
  | nil => rfl
  | cons first rest =>
      have atHead : (iterateRecordsInRangeBy records RelocationRecord.getDestRange dest).head? = some first := by
        rw [result, List.head?_cons]
      obtain ⟨member, inside⟩ := iterate_head atHead
      exact absurd inside (outside first member)

theorem PackedFrom.lower {offset : Nat} (packed : PackedFrom offset records) (member : record ∈ records) :
    offset ≤ record.dest := by
  induction records generalizing offset with
  | nil => cases member
  | cons first rest ih =>
      obtain ⟨start, later⟩ := packed
      rcases List.mem_cons.mp member with same | there
      · exact Nat.le_of_eq (same ▸ start.symm)
      · exact Nat.le_trans (Nat.le_add_right _ _) (ih later there)

theorem PackedFrom.ascending {offset : Nat} (packed : PackedFrom offset records) :
    Ascending RelocationRecord.getDestRange records := by
  induction records generalizing offset with
  | nil => exact .nil
  | cons first rest ih =>
      obtain ⟨start, later⟩ := packed
      refine .cons ?_ (ih later)
      intro other there
      exact Nat.le_trans (Nat.le_of_eq (start ▸ rfl)) (later.lower there)

/-- Every point before the end of a packed record lies in one of the row. -/
theorem PackedFrom.covers {offset point : Nat} (packed : PackedFrom offset records) (member : record ∈ records)
    (lower : offset ≤ point) (upper : point < record.getDestRange.stop) :
    ∃ found ∈ records, found.getDestRange.Contains point := by
  induction records generalizing offset with
  | nil => cases member
  | cons first rest ih =>
      obtain ⟨start, later⟩ := packed
      by_cases inside : point < offset + first.size
      · rw [← start] at lower inside
        exact ⟨first, List.mem_cons_self, lower, inside⟩
      · rcases List.mem_cons.mp member with same | there
        · rw [same, Span.stop, RelocationRecord.getDestRange] at upper
          simp only at upper
          omega
        · obtain ⟨found, foundMember, contains⟩ := ih later there (Nat.le_of_not_lt inside)
          exact ⟨found, List.mem_cons_of_mem _ foundMember, contains⟩

/-- Ascending records of which each starts at the offset or where another one ends. -/
theorem PackedFrom.of_ascending {offset : Nat} (ascending : Ascending RelocationRecord.getDestRange records)
    (filled : ∀ record ∈ records, 0 < record.size) (lower : ∀ record ∈ records, offset ≤ record.dest)
    (joined : ∀ record ∈ records, record.dest = offset ∨ ∃ other ∈ records, other.getDestRange.stop = record.dest) :
    PackedFrom offset records := by
  induction records generalizing offset with
  | nil => trivial
  | cons first rest ih =>
      obtain ⟨behind, ascendingRest⟩ := List.pairwise_cons.mp ascending
      have size := filled first List.mem_cons_self
      have later (other : RelocationRecord) (there : other ∈ rest) : first.dest + first.size ≤ other.dest :=
        behind other there
      have start : first.dest = offset := by
        rcases joined first List.mem_cons_self with here | ⟨other, member, ends⟩
        · exact here
        · have otherSize := filled other member
          simp only [Span.stop, RelocationRecord.getDestRange] at ends
          rcases List.mem_cons.mp member with same | there
          · rw [same] at ends
            omega
          · have := later other there
            omega
      refine ⟨start, ih ascendingRest (fun other there => filled other (List.mem_cons_of_mem _ there)) ?_ ?_⟩
      · intro other there
        exact start ▸ later other there
      · intro record there
        rcases joined record (List.mem_cons_of_mem _ there) with here | ⟨other, member, ends⟩
        · have := later record there
          omega
        · rcases List.mem_cons.mp member with same | inRest
          · refine .inl ?_
            rw [← ends, same, ← start]
            rfl
          · exact .inr ⟨other, inRest, ends⟩

theorem iterate_sublist (extractor : RelocationRecord → Span) (range : Span) :
    (iterateRecordsInRangeBy records extractor range).Sublist records := by
  unfold iterateRecordsInRangeBy
  split
  · exact (List.takeWhile_sublist _).trans (List.drop_sublist _ _)
  · exact List.nil_sublist _

theorem exists_limit (records : List RelocationRecord) :
    ∃ limit, ∀ record ∈ records, record.getDestRange.stop ≤ limit := by
  induction records with
  | nil => exact ⟨0, by simp⟩
  | cons first rest ih =>
      obtain ⟨limit, within⟩ := ih
      refine ⟨max first.getDestRange.stop limit, ?_⟩
      intro record member
      rcases List.mem_cons.mp member with same | later
      · exact same ▸ Nat.le_max_left _ _
      · exact Nat.le_trans (within record later) (Nat.le_max_right _ _)

section Exact

variable (separate : records.Pairwise fun left right => left.getDestRange.Separate right.getDestRange)
  (filled : ∀ record ∈ records, 0 < record.size)
  (exact : ∀ dest : Span, 0 < dest.length → ExactByDest records dest
    (iterateRecordsInRangeBy records RelocationRecord.getDestRange dest))

include separate filled exact

/-- The range of all records brings them back in their own order, which is ascending. -/
theorem ascending_of_exact : Ascending RelocationRecord.getDestRange records := by
  obtain ⟨limit, within⟩ := exists_limit records
  let whole : Span := ⟨0, limit + 1⟩
  have inWhole (record : RelocationRecord) (member : record ∈ records) : Meets record whole := by
    have size := filled record member
    have bound := within record member
    simp only [Span.stop, RelocationRecord.getDestRange] at bound
    refine ⟨record.dest, ⟨Nat.le_refl _, Nat.lt_add_of_pos_right size⟩, Nat.zero_le _, ?_⟩
    simp only [whole, Span.stop]
    omega
  obtain ⟨order, members⟩ := exact whole (Nat.succ_pos _)
  have nodup : records.Nodup := by
    refine separate.imp_of_mem ?_
    intro left right leftMember _ different same
    have size := filled left leftMember
    rw [same] at different size
    simp only [Span.Separate, Span.stop, RelocationRecord.getDestRange] at different
    omega
  have same : iterateRecordsInRangeBy records RelocationRecord.getDestRange whole = records := by
    refine (iterate_sublist _ _).eq_of_length_le (List.Subperm.length_le (List.subperm_of_subset nodup ?_))
    exact fun record member => (members record).mpr ⟨member, inWhole record member⟩
  rw [same] at order
  refine (List.pairwise_and_iff.mpr ⟨order, separate⟩).imp_of_mem ?_
  rintro left right leftMember rightMember ⟨before, different⟩
  have size := filled right rightMember
  simp only [Span.Separate, Span.stop, RelocationRecord.getDestRange] at different ⊢
  omega

/-- A lookup that starts one byte before a record must find another one there. -/
theorem joined_of_exact (member : record ∈ records) (first : record.dest ≠ 0) :
    ∃ other ∈ records, other.getDestRange.stop = record.dest := by
  have size := filled record member
  have found := ((exact ⟨record.dest - 1, 2⟩ Nat.two_pos).2 record).mpr
    ⟨member, record.dest, ⟨Nat.le_refl _, Nat.lt_add_of_pos_right size⟩, by simp [Span.Contains, Span.stop]; omega⟩
  obtain ⟨other, otherMember, inside⟩ : ∃ other ∈ records, other.getDestRange.Contains (record.dest - 1) := by
    by_contra none
    rw [iterate_nil fun other otherMember inside => none ⟨other, otherMember, inside⟩] at found
    cases found
  have different : other ≠ record := by
    intro same
    obtain ⟨lower, _⟩ := inside
    rw [same] at lower
    simp only [RelocationRecord.getDestRange] at lower
    omega
  have symmetric : Std.Symm fun left right : RelocationRecord => left.getDestRange.Separate right.getDestRange :=
    ⟨fun _ _ => Span.Separate.symm⟩
  have gap := separate.forall otherMember member different
  refine ⟨other, otherMember, ?_⟩
  simp only [Span.Separate, Span.Contains, Span.stop, RelocationRecord.getDestRange] at gap inside ⊢
  omega

end Exact

/-- The condition of one lookup: over records in ascending order it is exact when its range starts
in a record, as that of a page that the marker filled does, or meets none. -/
theorem iterate_exact_iff (ascending : Ascending RelocationRecord.getDestRange records)
    (filled : ∀ record ∈ records, 0 < record.size) (length : 0 < dest.length) :
    ExactByDest records dest (iterateRecordsInRangeBy records RelocationRecord.getDestRange dest) ↔
      (∃ record ∈ records, record.getDestRange.Contains dest.start) ∨ ∀ record ∈ records, ¬ Meets record dest := by
  by_cases found : ∃ record ∈ records, record.getDestRange.Contains dest.start
  · obtain ⟨record, member, inside⟩ := found
    exact iff_of_true (iterate_exact ascending filled length member inside) (.inl ⟨record, member, inside⟩)
  · rw [iterate_nil fun record member inside => found ⟨record, member, inside⟩, or_iff_right found]
    constructor
    · intro exact record member meets
      cases (exact.2 record).mpr ⟨member, meets⟩
    · intro none
      refine ⟨.nil, fun record => iff_of_false (by simp) ?_⟩
      rintro ⟨member, meets⟩
      exact none record member meets

/-- In a packed row every lookup is exact. -/
theorem PackedFrom.exact (packed : PackedFrom 0 records) (filled : ∀ record ∈ records, 0 < record.size)
    (length : 0 < dest.length) :
    ExactByDest records dest (iterateRecordsInRangeBy records RelocationRecord.getDestRange dest) := by
  refine (iterate_exact_iff packed.ascending filled length).mpr ?_
  rw [or_iff_not_imp_left]
  intro found record member meets
  obtain ⟨point, inRecord, inDest⟩ := meets
  exact found (packed.covers member (Nat.zero_le _) (Nat.lt_of_le_of_lt inDest.1 inRecord.2))

/-- Lookups by destination are exact for every range only if the records were inserted in
a packed row that starts at offset 0. -/
theorem lookups_exact_iff (records : List RelocationRecord)
    (separate : records.Pairwise fun left right => left.getDestRange.Separate right.getDestRange)
    (filled : ∀ record ∈ records, 0 < record.size) :
    (∀ dest : Span, 0 < dest.length → ExactByDest records dest
      ((RegistryBuilder.new.insertEach records).freeze.iterateRecordsInDestRange dest)) ↔
      PackedFrom 0 records := by
  have stored : (RegistryBuilder.new.insertEach records).freeze.recordsSortedByDest = records :=
    (RegistryBuilder.insertEach_records .new records).2
  simp only [iterateRecordsInDestRange, stored]
  constructor
  · intro exact
    refine .of_ascending (ascending_of_exact separate filled exact) filled (fun _ _ => Nat.zero_le _) ?_
    intro record member
    by_cases first : record.dest = 0
    · exact .inl first
    · exact .inr (joined_of_exact separate filled exact member first)
  · intro packed dest length
    exact packed.exact filled length

/-- The objects of a small, a medium and a small size as the marker places them. -/
def mixedRecords : List RelocationRecord := [⟨0, 0, 24⟩, ⟨24, 2097152, 262160⟩, ⟨262184, 24, 24⟩]

theorem lookup_misses_record :
    (mixedRecords.Pairwise fun left right => left.getDestRange.Separate right.getDestRange) ∧
      (∀ record ∈ mixedRecords, 0 < record.size) ∧
      ¬ ExactByDest mixedRecords ⟨0, 2097152⟩
        ((RegistryBuilder.new.insertEach mixedRecords).freeze.iterateRecordsInDestRange ⟨0, 2097152⟩) := by
  refine ⟨by decide, by decide, ?_⟩
  intro exact
  have result : (RegistryBuilder.new.insertEach mixedRecords).freeze.iterateRecordsInDestRange ⟨0, 2097152⟩ =
      [⟨0, 0, 24⟩] := by decide +kernel
  have missed := ((result ▸ exact).2 ⟨262184, 24, 24⟩).mpr
    ⟨by decide, 24, by decide, by decide⟩
  simp at missed

/-- A range inside two records in a packed row. -/
theorem lookups_exact_packed :
    ExactByDest [⟨48, 0, 24⟩, ⟨0, 24, 48⟩] ⟨16, 16⟩
      ((RegistryBuilder.new.insertEach [⟨48, 0, 24⟩, ⟨0, 24, 48⟩]).freeze.iterateRecordsInDestRange ⟨16, 16⟩) :=
  (lookups_exact_iff [⟨48, 0, 24⟩, ⟨0, 24, 48⟩] (by decide) (by decide)).mpr ⟨rfl, rfl, trivial⟩ ⟨16, 16⟩ (by decide)

/-- The three tests of a probe leave no case out. -/
theorem probe_cases (range : Span) (start : Nat) :
    range.Contains start ∨ range.stop ≤ start ∨ start < range.start := by
  simp only [Span.Contains]
  omega

theorem mapSrcToDest_none {registry : RegistryBuilder} {ptr : Nat}
    (outside : ∀ record ∈ registry.data.recordsSortedBySrc, ¬ record.getSrcRange.Contains ptr) :
    registry.freeze.mapSrcToDest ptr = .ok none := by
  have nothing : registry.freeze.findRecordForContainingSrc ptr = none := by
    cases found : registry.freeze.findRecordForContainingSrc ptr with
    | none => rfl
    | some record =>
        obtain ⟨member, inside⟩ := iterate_head found
        exact absurd inside (outside record ((List.mem_insertionSort _).mp member))
  rw [mapSrcToDest, nothing]

/-- With filled source ranges every lookup by source is exact, in a new registry and in one
that was used before. -/
theorem mapSrcToDest_exact (records : List RelocationRecord) (registry : RegistryBuilder)
    (empty : registry = .new ∨ ∃ old : FrozenRegistry, registry = old.unfreeze)
    (separate : records.Pairwise fun left right => left.getSrcRange.Separate right.getSrcRange)
    (filled : ∀ record ∈ records, 0 < record.size) (ptr : Nat) :
    (∀ record ∈ records, record.getSrcRange.Contains ptr →
      (registry.insertEach records).freeze.mapSrcToDest ptr = .ok (some (record.dest + (ptr - record.src)))) ∧
    ((∀ record ∈ records, ¬ record.getSrcRange.Contains ptr) →
      (registry.insertEach records).freeze.mapSrcToDest ptr = .ok none) ∧
    ∀ record ∈ records, record.getSrcRange.Contains ptr ∨ record.getSrcRange.stop ≤ ptr ∨
      ptr < record.getSrcRange.start := by
  have fresh : registry = .new := by
    rcases empty with new | ⟨old, recycled⟩
    · exact new
    · exact recycled
  have stored : (registry.insertEach records).data.recordsSortedBySrc = records := by
    rw [fresh]
    exact (RegistryBuilder.insertEach_records .new records).1
  refine ⟨?_, ?_, fun record _ => probe_cases record.getSrcRange ptr⟩
  · intro record member inside
    rw [← stored] at separate filled member
    exact mapSrcToDest_found separate filled member inside
  · intro outside
    rw [← stored] at outside
    exact mapSrcToDest_none outside

theorem empty_range_hides :
    ([⟨5, 0, 10⟩, ⟨5, 10, 0⟩] : List RelocationRecord).Pairwise
        (fun left right => left.getSrcRange.Separate right.getSrcRange) ∧
      (RelocationRecord.mk 5 0 10).getSrcRange.Contains 5 ∧
      (RegistryBuilder.new.insertEach [⟨5, 0, 10⟩, ⟨5, 10, 0⟩]).freeze.mapSrcToDest 5 = .ok none := by
  refine ⟨by decide, by decide, ?_⟩
  decide +kernel

/-- Three records out of order, asked for a byte inside the last one. -/
theorem mapSrcToDest_exact_recycled :
    ((RegistryBuilder.new.insertEach mixedRecords).freeze.unfreeze.insertEach
      [⟨96, 0, 24⟩, ⟨0, 24, 48⟩, ⟨48, 72, 16⟩]).freeze.mapSrcToDest 56 = .ok (some 80) :=
  (mapSrcToDest_exact [⟨96, 0, 24⟩, ⟨0, 24, 48⟩, ⟨48, 72, 16⟩] _ (.inr ⟨_, rfl⟩) (by decide) (by decide) 56).1
    ⟨48, 72, 16⟩ (by decide) (by decide)

end FrozenRegistry

end UwUGC.Gc
