import UwUGC.Panic
import UwUGC.Lib.Span
import UwUGC.Lib.BinarySearch
import Mathlib.Data.List.Sort

/-! The relocation registry: one record for each object that moves, kept in the
order of insertion and, once frozen, also sorted by source. All positions are
offsets into their space. -/

set_option autoImplicit false

namespace UwUGC.Gc

structure RelocationRecord where
  src : Nat
  dest : Nat
  size : Nat
deriving DecidableEq, Repr

namespace RelocationRecord

def getDestRange (record : RelocationRecord) : Span := ⟨record.dest, record.size⟩

def getSrcRange (record : RelocationRecord) : Span := ⟨record.src, record.size⟩

def mapSrcToDest (record : RelocationRecord) (ptr : Nat) : Except Panic Nat := do
  assert (record.getSrcRange.Contains ptr) "Pointer to be mapped is not in source"
  .ok (record.dest + (ptr - record.src))

end RelocationRecord

/-- Nothing sorts `recordsSortedByDest`. -/
structure FrozenRegistry where
  recordsSortedBySrc : List RelocationRecord
  recordsSortedByDest : List RelocationRecord
  startingSrc : Option Nat
  startingDest : Option Nat
  latestFreeSrc : Option Nat
  latestFreeDest : Option Nat
deriving DecidableEq, Repr

structure RegistryBuilder where
  data : FrozenRegistry
deriving DecidableEq, Repr

namespace RegistryBuilder

def new : RegistryBuilder := ⟨⟨[], [], none, none, none, none⟩⟩

/-- `latest_free` moves on to the end of a record that starts at it or behind it. -/
def latestFree (current : Option Nat) (range : Span) : Option Nat :=
  match current with
  | some latest => if range.start ≥ latest then some range.stop else some latest
  | none => some range.stop

def insert (registry : RegistryBuilder) (record : RelocationRecord) : RegistryBuilder where
  data := {
    recordsSortedBySrc := registry.data.recordsSortedBySrc ++ [record]
    recordsSortedByDest := registry.data.recordsSortedByDest ++ [record]
    startingSrc := some (registry.data.startingSrc.getD record.src)
    startingDest := some (registry.data.startingDest.getD record.dest)
    latestFreeSrc := latestFree registry.data.latestFreeSrc record.getSrcRange
    latestFreeDest := latestFree registry.data.latestFreeDest record.getDestRange }

/-- `sort_by_key` is stable, as `insertionSort` is. -/
def freeze (registry : RegistryBuilder) : FrozenRegistry :=
  { registry.data with
    recordsSortedBySrc := registry.data.recordsSortedBySrc.insertionSort fun left right => left.src ≤ right.src }

end RegistryBuilder

namespace FrozenRegistry

/-- The probe of `iterate_records_in_range_by`. The three cases leave nothing for the
`unimplemented!` of the source. -/
def probe (range : Span) (start : Nat) : Ordering :=
  if range.Contains start then .eq
  else if range.stop ≤ start then .lt
  else .gt

def iterateRecordsInRangeBy (vec : List RelocationRecord) (extractor : RelocationRecord → Span) (range : Span) :
    List RelocationRecord :=
  match BinarySearch.binarySearchBy vec (fun record => probe (extractor record) range.start) with
  | .ok startIdx => (vec.drop startIdx).takeWhile fun record => decide ((extractor record).start < range.stop)
  | .error _ => []

def iterateRecordsInDestRange (registry : FrozenRegistry) (dest : Span) : List RelocationRecord :=
  iterateRecordsInRangeBy registry.recordsSortedByDest RelocationRecord.getDestRange dest

def iterateRecordsInSrcRange (registry : FrozenRegistry) (src : Span) : List RelocationRecord :=
  iterateRecordsInRangeBy registry.recordsSortedBySrc RelocationRecord.getSrcRange src

def findRecordForContainingSrc (registry : FrozenRegistry) (srcPtr : Nat) : Option RelocationRecord :=
  (registry.iterateRecordsInSrcRange ⟨srcPtr, 1⟩).head?

def mapSrcToDest (registry : FrozenRegistry) (ptr : Nat) : Except Panic (Option Nat) :=
  match registry.findRecordForContainingSrc ptr with
  | some record => do
      let mapped ← record.mapSrcToDest ptr
      .ok (some mapped)
  | none => .ok none

def unfreeze (_registry : FrozenRegistry) : RegistryBuilder := .new

end FrozenRegistry

end UwUGC.Gc
