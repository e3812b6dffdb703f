import UwUGC.Gc.RelocationMap

/-! Lookups in a frozen registry. By source they are exact, since the records are
sorted. By destination they are exact for records that were inserted in the order
of their destinations. -/

set_option autoImplicit false

namespace UwUGC.Gc

/-- The ranges of the records lie one behind the other. -/
def Ascending (extractor : RelocationRecord → Span) (records : List RelocationRecord) : Prop :=
  records.Pairwise fun left right => (extractor left).stop ≤ (extractor right).start

namespace FrozenRegistry

theorem probe_eq {range : Span} {start : Nat} (inside : range.Contains start) : probe range start = .eq := by
  simp [probe, inside]

theorem probe_lt {range : Span} {start : Nat} (before : range.stop ≤ start) : probe range start = .lt := by
  have outside : ¬ range.Contains start := by
    intro inside
    exact absurd inside.2 (Nat.not_lt.mpr before)
  simp [probe, outside, before]

theorem probe_gt {range : Span} {start : Nat} (behind : start < range.start) : probe range start = .gt := by
  have outside : ¬ range.Contains start := by
    intro inside
    exact absurd inside.1 (Nat.not_le.mpr behind)
  have later : ¬ range.stop ≤ start := by
    simp only [Span.stop]
    omega
  simp [probe, outside, later]

variable {extractor : RelocationRecord → Span} {before behind : List RelocationRecord}
  {record : RelocationRecord} {range : Span}

theorem iterate_of_split (less : ∀ other ∈ before, (extractor other).stop ≤ range.start)
    (inside : (extractor record).Contains range.start)
    (greater : ∀ other ∈ behind, range.start < (extractor other).start) :
    iterateRecordsInRangeBy (before ++ record :: behind) extractor range =
      (record :: behind).takeWhile fun other => decide ((extractor other).start < range.stop) := by
  have found := BinarySearch.binarySearchBy_found
    (fun other member => probe_lt (less other member)) (probe_eq inside)
    (fun other member => probe_gt (greater other member))
  simp only [iterateRecordsInRangeBy, found, List.drop_left]

theorem iterate_of_ascending (ascending : Ascending extractor (before ++ record :: behind))
    (inside : (extractor record).Contains range.start) :
    iterateRecordsInRangeBy (before ++ record :: behind) extractor range =
      (record :: behind).takeWhile fun other => decide ((extractor other).start < range.stop) := by
  obtain ⟨_, rest, across⟩ := List.pairwise_append.mp ascending
  apply iterate_of_split
  · intro other member
    exact Nat.le_trans (across other member record List.mem_cons_self) inside.1
  · exact inside
  · intro other member
    exact Nat.lt_of_lt_of_le inside.2 ((List.pairwise_cons.mp rest).1 other member)

/-- What is found contains the start of the range. -/
theorem iterate_head {records : List RelocationRecord}
    (found : (iterateRecordsInRangeBy records extractor range).head? = some record) :
    record ∈ records ∧ (extractor record).Contains range.start := by
  unfold iterateRecordsInRangeBy at found
  split at found
  · next startIdx search =>
      obtain ⟨value, there, equal⟩ := BinarySearch.binarySearchBy_sound search
      have bound := (List.getElem?_eq_some_iff.mp there).1
      have first : value = record := by
        rw [List.drop_eq_getElem_cons bound] at found
        rw [List.getElem?_eq_getElem bound] at there
        rw [Option.some.inj there, List.takeWhile_cons] at found
        split at found
        · exact Option.some.inj found
        · cases found
      subst first
      refine ⟨List.mem_of_getElem? there, ?_⟩
      by_contra outside
      unfold probe at equal
      rw [if_neg outside] at equal
      split at equal <;> cases equal
  · cases found

/-- Records whose source ranges are separate and filled are ascending once sorted. -/
theorem sorted_ascending {records : List RelocationRecord}
    (separate : records.Pairwise fun left right => left.getSrcRange.Separate right.getSrcRange)
    (filled : ∀ record ∈ records, 0 < record.size) :
    Ascending RelocationRecord.getSrcRange (records.insertionSort fun left right => left.src ≤ right.src) := by
  let order (left right : RelocationRecord) : Prop := left.src ≤ right.src
  have : Std.Total order := ⟨fun left right => Nat.le_total left.src right.src⟩
  have : IsTrans RelocationRecord order := ⟨fun _ _ _ => Nat.le_trans⟩
  have perm := List.perm_insertionSort order records
  have sorted := List.pairwise_insertionSort order records
  have apart := (perm.pairwise_iff fun different => Span.Separate.symm different).mpr separate
  refine (List.pairwise_and_iff.mpr ⟨sorted, apart⟩).imp_of_mem ?_
  intro left right _ rightMember ⟨order, different⟩
  have size := filled right (perm.mem_iff.mp rightMember)
  rcases different with before | after
  · exact before
  · simp only [Span.stop, RelocationRecord.getSrcRange] at after
    omega

section Source

variable {registry : RegistryBuilder} {ptr : Nat}

theorem mapSrcToDest_found
    (separate : registry.data.recordsSortedBySrc.Pairwise fun left right =>
      left.getSrcRange.Separate right.getSrcRange)
    (filled : ∀ record ∈ registry.data.recordsSortedBySrc, 0 < record.size)
    (member : record ∈ registry.data.recordsSortedBySrc) (inside : record.getSrcRange.Contains ptr) :
    registry.freeze.mapSrcToDest ptr = .ok (some (record.dest + (ptr - record.src))) := by
  have ascending := sorted_ascending separate filled
  have there : record ∈ registry.freeze.recordsSortedBySrc := (List.mem_insertionSort _).mpr member
  obtain ⟨before, behind, split⟩ := List.append_of_mem there
  change Ascending _ registry.freeze.recordsSortedBySrc at ascending
  rw [split] at ascending
  have first : registry.freeze.findRecordForContainingSrc ptr = some record := by
    have start : record.src < ptr + 1 := Nat.lt_succ_of_le inside.1
    rw [findRecordForContainingSrc, iterateRecordsInSrcRange, split, iterate_of_ascending ascending inside,
      List.takeWhile_cons]
    simp [RelocationRecord.getSrcRange, Span.stop, start]
  simp [mapSrcToDest, first, RelocationRecord.mapSrcToDest, assert, inside, bind, Except.bind]

end Source

end FrozenRegistry

end UwUGC.Gc
