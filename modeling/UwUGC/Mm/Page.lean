import UwUGC.Panic

/-! A `FlexPage` is one or more consecutive base pages with one bump pointer.
Addresses are byte addresses, and sizes are in bytes. -/

set_option autoImplicit false

namespace UwUGC

@[irreducible] def basePageSize : Nat := 2 * 1024 * 1024
def basePageShift : Nat := 21

def usizeMax : Nat := 2 ^ 64 - 1

inductive FlexPageKind where
  | small
  | medium
  | huge (baseCount : Nat)
deriving DecidableEq, Repr

namespace FlexPageKind

def nrPages : FlexPageKind → Nat
  | small => 1
  | medium => 4
  | huge baseCount => baseCount

def maxObjectSize : FlexPageKind → Nat
  | small => 256 * 1024
  | medium => 1024 * 1024
  | huge _ => usizeMax

@[simp] theorem nrPages_small : small.nrPages = 1 := rfl

@[simp] theorem nrPages_medium : medium.nrPages = 4 := rfl

@[simp] theorem nrPages_huge (baseCount : Nat) : (huge baseCount).nrPages = baseCount := rfl

@[simp] theorem maxObjectSize_small : small.maxObjectSize = 262144 := rfl

@[simp] theorem maxObjectSize_medium : medium.maxObjectSize = 1048576 := rfl

end FlexPageKind

theorem basePageSize_eq : basePageSize = 2097152 := by
  simp [basePageSize]

theorem basePageSize_pos : 0 < basePageSize := by
  simp [basePageSize_eq]

structure FlexPage where
  kind : FlexPageKind
  start : Nat
  usedBytes : Nat
deriving DecidableEq, Repr

namespace FlexPage

/-- The start is a `NonNull`, so a null start panics. -/
def new (kind : FlexPageKind) (start : Nat) : Except Panic FlexPage :=
  if start = 0 then .error .unwrapNone
  else .ok { kind := kind, start := start, usedBytes := 0 }

def nrPages (page : FlexPage) : Nat := page.kind.nrPages

def size (page : FlexPage) : Nat := page.kind.nrPages * basePageSize

def used (page : FlexPage) : Nat := page.usedBytes

def free (page : FlexPage) : Nat := page.size - page.used

def limit (page : FlexPage) : Nat := page.start + page.size

def alloc (page : FlexPage) (size : Nat) : Option (Nat × FlexPage) :=
  if page.free ≥ size then
    some (page.start + page.usedBytes, { page with usedBytes := page.usedBytes + size })
  else none

theorem new_eq_ok {kind : FlexPageKind} {start : Nat} {page : FlexPage} :
    new kind start = .ok page ↔ start ≠ 0 ∧ page = { kind := kind, start := start, usedBytes := 0 } := by
  unfold new
  split
  · simp_all
  · simp_all [eq_comm]

theorem alloc_eq_some {page updated : FlexPage} {size ptr : Nat} :
    page.alloc size = some (ptr, updated) ↔
      size ≤ page.free ∧ ptr = page.start + page.usedBytes ∧
        updated = { page with usedBytes := page.usedBytes + size } := by
  unfold alloc
  split
  · simp_all [eq_comm]
  · rename_i full
    simp [show ¬ size ≤ page.free from full]

theorem size_of_nrPages (page : FlexPage) : page.size = page.nrPages * basePageSize := rfl

end FlexPage

end UwUGC
