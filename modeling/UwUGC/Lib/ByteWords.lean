import Mathlib.Algebra.Group.Nat.Defs
import Mathlib.Logic.Function.Basic
import Mathlib.Tactic.Common

/-! Little-endian words in a memory of bytes. A write changes the bytes of its own word, and a
word that lies apart from them reads as before. -/

set_option autoImplicit false

namespace ByteWords

abbrev Bytes := Nat → UInt8

/-- So many bytes from an address on, the lowest first. -/
def readNat (bytes : Bytes) (address : Nat) : Nat → Nat
  | 0 => 0
  | width + 1 => (bytes address).toNat + 256 * readNat bytes (address + 1) width

def writeNat (bytes : Bytes) (address value : Nat) : Nat → Bytes
  | 0 => bytes
  | width + 1 => writeNat (Function.update bytes address (.ofNat (value % 256))) (address + 1) (value / 256) width

def readWord (bytes : Bytes) (address : Nat) : UInt64 := .ofNat (readNat bytes address 8)

def writeWord (bytes : Bytes) (address : Nat) (value : UInt64) : Bytes := writeNat bytes address value.toNat 8

/-- The words at the two offsets do not overlap. -/
def Apart (left right : Nat) : Prop := left + 8 ≤ right ∨ right + 8 ≤ left

instance (left right : Nat) : Decidable (Apart left right) := inferInstanceAs (Decidable (_ ∨ _))

variable {bytes later : Bytes} {address point value width left right : Nat} {word : UInt64}

instance : Std.Symm Apart := ⟨fun _ _ => Or.symm⟩

theorem writeNat_outside (outside : point < address ∨ address + width ≤ point) :
    writeNat bytes address value width point = bytes point := by
  induction width generalizing bytes address value with
  | zero => rfl
  | succ width ih =>
      rw [writeNat, ih (by omega)]
      apply Function.update_of_ne
      omega

theorem readNat_congr (same : ∀ offset < width, later (address + offset) = bytes (address + offset)) :
    readNat later address width = readNat bytes address width := by
  induction width generalizing address with
  | zero => rfl
  | succ width ih =>
      have first : later address = bytes address := same 0 (Nat.succ_pos width)
      have rest : readNat later (address + 1) width = readNat bytes (address + 1) width := by
        apply ih
        intro offset inside
        have shifted := same (offset + 1) (by omega)
        rwa [Nat.add_comm offset 1, ← Nat.add_assoc] at shifted
      rw [readNat, readNat, first, rest]

theorem readNat_writeNat : readNat (writeNat bytes address value width) address width = value % 256 ^ width := by
  induction width generalizing bytes address value with
  | zero => simp [readNat, Nat.mod_one]
  | succ width ih =>
      have first : writeNat bytes address value (width + 1) address = .ofNat (value % 256) := by
        rw [writeNat, writeNat_outside (by omega), Function.update_self]
      have byte : (UInt8.ofNat (value % 256)).toNat = value % 256 := by
        simp only [UInt8.toNat_ofNat']
        omega
      rw [readNat, first, byte, writeNat, ih, Nat.pow_succ', Nat.mod_mul]

theorem writeWord_outside (outside : point < address ∨ address + 8 ≤ point) : writeWord bytes address word point = bytes point :=
  writeNat_outside outside

theorem readWord_congr (same : ∀ offset < 8, later (address + offset) = bytes (address + offset)) :
    readWord later address = readWord bytes address := by
  rw [readWord, readWord, readNat_congr same]

@[simp] theorem readWord_writeWord : readWord (writeWord bytes address word) address = word := by
  have bound : word.toNat < 256 ^ 8 := word.toNat_lt
  rw [readWord, writeWord, readNat_writeNat, Nat.mod_eq_of_lt bound]
  exact UInt64.ofNat_toNat

theorem readWord_writeWord_apart (apart : Apart left right) : readWord (writeWord bytes left word) right = readWord bytes right := by
  apply readWord_congr
  intro offset inside
  apply writeWord_outside
  rcases apart with before | behind
  · right
    omega
  · left
    omega

end ByteWords
