import UwUGC.Mm.TableRuns

/-! Page tables whose pages lie in the 64-bit address space, and the sizes that some of
them can serve. The sums of the page allocator do not wrap there. -/

set_option autoImplicit false

namespace UwUGC

namespace PageTable

structure Addressable (table : PageTable) : Prop where
  indexed : table.Indexed
  used : table.currentBasePage ≤ table.nrPages
  nonnull : table.baseAddr ≠ 0
  space : table.baseAddr + table.nrPages * basePageSize ≤ 2 ^ 64

variable {table final : PageTable} {size : Nat}

theorem sizeClass_nrPages_le {bound : Nat} (medium : 4 ≤ bound) (huge : divCeil size basePageSize ≤ bound) :
    (sizeClass size).nrPages ≤ bound := by
  unfold sizeClass
  split
  · rw [FlexPageKind.nrPages_small]
    omega
  · split
    · rw [FlexPageKind.nrPages_medium]
      exact medium
    · rw [FlexPageKind.nrPages_huge]
      exact huge

theorem Addressable.unchanged (addressable : table.Addressable) {kind : FlexPageKind} {buffer : Option Nat}
    {room : FlexPage → Prop} (step : Allocates kind buffer room size table none final) : final.Addressable := by
  rw [step.none_unchanged]
  exact addressable

end PageTable

/-- The sizes that a table in the address space can serve. -/
def Servable (size : Nat) : Prop := size % 8 = 0 ∧ size ≤ 2 ^ 64 - basePageSize

instance (size : Nat) : Decidable (Servable size) := inferInstanceAs (Decidable (_ ∧ _))

namespace Mm.Context

open PageTable

variable {context after : Context} {table final : PageTable} {size : Nat}

theorem served_servable {place : Nat × Nat} (addressable : table.Addressable)
    (returned : context.allocFromPageTable table size = .ok (some place, after, final)) : Servable size := by
  obtain ⟨multiple, step⟩ := allocates_of_returned addressable.indexed returned
  refine ⟨multiple, ?_⟩
  by_cases large : FlexPageKind.medium.maxObjectSize ≤ size
  · have small : ¬ size < FlexPageKind.small.maxObjectSize := by
      simp only [FlexPageKind.maxObjectSize_medium, FlexPageKind.maxObjectSize_small] at *
      omega
    cases step with
    | bump selected =>
        rw [buffer, if_neg small, directBuffer, if_neg (Nat.not_lt.mpr large)] at selected
        cases selected
    | fresh _ available _ free =>
        have space := addressable.space
        have nonnull := addressable.nonnull
        have within : (sizeClass size).nrPages * basePageSize ≤ table.nrPages * basePageSize :=
          Nat.mul_le_mul_right _ (Nat.le_trans (Nat.le_add_left _ _) available)
        rw [basePageSize_eq] at *
        omega
  · rw [FlexPageKind.maxObjectSize_medium] at large
    rw [basePageSize_eq]
    omega

theorem failed_addressable (addressable : table.Addressable)
    (returned : context.allocFromPageTable table size = .ok (none, after, final)) : final.Addressable :=
  addressable.unchanged (allocates_of_returned addressable.indexed returned).2

theorem new_addressable {baseAddr nrPages : Nat} (nonnull : baseAddr ≠ 0)
    (space : baseAddr + nrPages * basePageSize ≤ 2 ^ 64) : (PageTable.new baseAddr nrPages).Addressable where
  indexed := (Mm.Allocator.placed_new baseAddr nrPages).indexed
  used := Nat.zero_le _
  nonnull := nonnull
  space := space

theorem new_serves {baseAddr nrPages : Nat} (nonnull : baseAddr ≠ 0) (multiple : size % 8 = 0)
    (available : (sizeClass size).nrPages ≤ nrPages) :
    ∃ place after final,
      Context.new.allocFromPageTable (PageTable.new baseAddr nrPages) size = .ok (some place, after, final) := by
  have noRoom {idx : Nat} {page : FlexPage} (_ : Context.new.buffer (PageTable.new baseAddr nrPages) size = some idx)
      (found : (PageTable.new baseAddr nrPages).slot idx = some page) : ¬ hasRoom size page := by
    rw [Mm.Allocator.slot_new] at found
    cases found
  have within : (PageTable.new baseAddr nrPages).currentBasePage + (sizeClass size).nrPages ≤ nrPages := by
    simpa [PageTable.new] using available
  have start : (PageTable.new baseAddr nrPages).baseAddr +
      (PageTable.new baseAddr nrPages).currentBasePage * basePageSize ≠ 0 := by
    simpa [PageTable.new] using nonnull
  have step := Allocates.fresh noRoom within start (sizeClass_free size)
  have indexed := (Mm.Allocator.placed_new baseAddr nrPages).indexed
  exact ⟨_, _, _, (allocFromPageTable_eq_ok indexed (Fits.new _)).mpr ⟨multiple, step, rfl⟩⟩

/-- The base pages of the address space but the first. -/
@[irreducible] def spacePages : Nat := 2 ^ 43 - 1

theorem spacePages_eq : spacePages = 8796093022207 := by
  simp [spacePages]

def wholeSpace : PageTable := .new basePageSize spacePages

theorem wholeSpace_addressable : wholeSpace.Addressable := by
  apply new_addressable (Nat.ne_of_gt basePageSize_pos)
  simp [spacePages_eq, basePageSize_eq]

theorem wholeSpace_serves (servable : Servable size) :
    ∃ place after final, Context.new.allocFromPageTable wholeSpace size = .ok (some place, after, final) := by
  obtain ⟨multiple, bounded⟩ := servable
  apply new_serves (Nat.ne_of_gt basePageSize_pos) multiple
  rw [basePageSize_eq] at bounded
  rw [spacePages_eq]
  apply sizeClass_nrPages_le
  · omega
  · simp only [divCeil, basePageSize_eq]
    omega

end Mm.Context

end UwUGC
