/-! Next-fit packing: an item goes into the open bin when that accepts it, and
into a new bin otherwise. Only the load of the open bin is remembered. -/

set_option autoImplicit false

/-- A packing by its number of bins and the load of the open one. -/
structure NextFit where
  bins : Nat
  load : Option Nat
deriving DecidableEq, Repr

namespace NextFit

def empty : NextFit := ⟨0, none⟩

/-- `accepts load size` is the room test of the open bin. -/
def place (accepts : Nat → Nat → Bool) (packing : NextFit) (size : Nat) : NextFit :=
  match packing.load with
  | some load =>
      if accepts load size then { packing with load := some (load + size) }
      else ⟨packing.bins + 1, some size⟩
  | none => ⟨packing.bins + 1, some size⟩

variable {accepts : Nat → Nat → Bool} {packing : NextFit} {size : Nat}

theorem place_accepted {load : Nat} (opened : packing.load = some load)
    (accepted : accepts load size = true) :
    packing.place accepts size = ⟨packing.bins, some (load + size)⟩ := by
  simp [place, opened, accepted]

theorem place_fresh (refused : ∀ load, packing.load = some load → accepts load size = false) :
    packing.place accepts size = ⟨packing.bins + 1, some size⟩ := by
  unfold place
  cases opened : packing.load with
  | none => rfl
  | some load => simp [refused load opened]

/-- Placing an item closes no bin for good: the number of bins never falls. -/
theorem bins_le_place (accepts : Nat → Nat → Bool) (packing : NextFit) (size : Nat) :
    packing.bins ≤ (packing.place accepts size).bins := by
  unfold place
  split
  · split
    · exact Nat.le_refl _
    · exact Nat.le_succ _
  · exact Nat.le_succ _

end NextFit
