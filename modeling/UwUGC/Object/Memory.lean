import UwUGC.Object.Metadata
import UwUGC.Lib.Span
import Mathlib.Logic.Function.Basic

/-! The memory of both spaces, in words. Objects and their fields start at
multiples of 8, so only the words at such addresses are used. An object is its
two header words and the data behind them. -/

set_option autoImplicit false

namespace UwUGC

abbrev Memory := Nat → Nat

namespace Memory

def header (memory : Memory) (obj : Nat) : Metadata where
  word := .ofNat (memory obj)
  payload := .ofNat (memory (obj + 8))

def metadata (memory : Memory) (obj : Nat) : MetadataExpanded := (memory.header obj).get

def data (memory : Memory) (obj : Nat) : Nat → Nat := fun offset => memory (obj + metadataSize + offset)

def writeHeader (memory : Memory) (obj : Nat) (header : Metadata) : Memory :=
  Function.update (Function.update memory obj header.word.toNat) (obj + 8) header.payload.toNat

/-- `try_update` on the header in memory. It writes the flag word only. -/
def tryUpdate (memory : Memory) (obj : Nat) (func : MetadataExpanded → Option MetadataExpanded) :
    Except MetadataExpanded MetadataExpanded × Memory :=
  match (memory.header obj).tryUpdate func with
  | (.ok old, header) => (.ok old, Function.update memory obj header.word.toNat)
  | (.error old, _) => (.error old, memory)

/-- `copy_nonoverlapping` into a buffer. -/
def copy (buffer memory : Memory) (src dest size : Nat) : Memory := fun address =>
  if (Span.mk dest size).Contains address then memory (src + (address - dest)) else buffer address

/-- The memory reads the same in the span. -/
def Agrees (memory later : Memory) (span : Span) : Prop :=
  ∀ address, span.Contains address → later address = memory address

theorem header_congr {memory later : Memory} {obj : Nat} (word : later obj = memory obj)
    (payload : later (obj + 8) = memory (obj + 8)) : later.header obj = memory.header obj := by
  simp only [header, word, payload]

theorem header_writeHeader (memory : Memory) (obj : Nat) (header : Metadata) :
    (memory.writeHeader obj header).header obj = header := by
  simp [Memory.header, writeHeader]

def setMarked (memory : Memory) (obj : Nat) (bit : Bit) : Memory :=
  Function.update memory obj (encodeWord { memory.metadata obj with isMarked := bit }).toNat

theorem setMarked_of_ne (memory : Memory) {obj address : Nat} (bit : Bit) (different : address ≠ obj) :
    memory.setMarked obj bit address = memory address :=
  Function.update_of_ne different _ _

@[simp] theorem metadata_setMarked (memory : Memory) (obj : Nat) (bit : Bit) :
    (memory.setMarked obj bit).metadata obj = { memory.metadata obj with isMarked := bit } := by
  have payload : (memory.header obj).payload = (memory.metadata obj).payload.value :=
    (Metadata.decode_payload_value _ _).symm
  have same : (memory.setMarked obj bit).header obj =
      ⟨encodeWord { memory.metadata obj with isMarked := bit }, (memory.header obj).payload⟩ := by
    simp [header, setMarked]
  rw [metadata, same]
  exact Metadata.decode_encodeWord _ _ payload

theorem metadata_congr {memory later : Memory} {obj : Nat} (word : later obj = memory obj)
    (payload : later (obj + 8) = memory (obj + 8)) : later.metadata obj = memory.metadata obj := by
  rw [metadata, header_congr word payload, metadata]

theorem metadata_writeHeader (memory : Memory) (obj : Nat) (data : MetadataExpanded) :
    (memory.writeHeader obj (.new data)).metadata obj = data := by
  rw [metadata, header_writeHeader, Metadata.get_new]

theorem copy_inside {buffer memory : Memory} {src dest size offset : Nat} (inside : offset < size) :
    copy buffer memory src dest size (dest + offset) = memory (src + offset) := by
  have contains : (Span.mk dest size).Contains (dest + offset) := by
    simp only [Span.Contains, Span.stop]
    omega
  rw [copy, if_pos contains, Nat.add_sub_cancel_left]

theorem copy_outside {buffer memory : Memory} {src dest size address : Nat}
    (outside : ¬ (Span.mk dest size).Contains address) :
    copy buffer memory src dest size address = buffer address := by
  rw [copy, if_neg outside]

end Memory

end UwUGC
