import Mathlib.Data.Nat.Bitwise

/-! The object header. Its first word packs the mark bit, the write barrier
flag and the kind below a shifted copy of the length; the payload word next to
it holds the length or the type id at full width, and decoding reads it there. -/

set_option autoImplicit false

namespace UwUGC

/-- Neither bit is true or false: the collector flips the meaning each cycle. -/
inductive Bit where
  | bit0
  | bit1
deriving DecidableEq, Repr

def Bit.not : Bit → Bit
  | .bit0 => .bit1
  | .bit1 => .bit0

@[simp] theorem Bit.not_not (bit : Bit) : bit.not.not = bit := by cases bit <;> rfl

theorem Bit.not_ne (bit : Bit) : bit.not ≠ bit := by cases bit <;> simp [Bit.not]

inductive MetadataEnum where
  | plainOldData (len : UInt64)
  | notPlainOldData (typeId : UInt64)
deriving DecidableEq, Repr

structure MetadataExpanded where
  isMarked : Bit
  writeBarrierActivated : Bool
  payload : MetadataEnum
deriving DecidableEq, Repr

/-- The header as it lies in the object: the flag word and the payload word. -/
structure Metadata where
  word : UInt64
  payload : UInt64
deriving DecidableEq, Repr

def markBit : UInt64 := 0b001
def writeBarrierBit : UInt64 := 0b010
def objectTypeMask : UInt64 := 0b100
def objectTypeShift : UInt64 := 2
def payloadShift : UInt64 := 3

/-- `size_of::<MetadataCompressed>()`: two words. -/
def metadataSize : Nat := 16

def MetadataEnum.value : MetadataEnum → UInt64
  | .plainOldData len => len
  | .notPlainOldData typeId => typeId

def encodeWord (data : MetadataExpanded) : UInt64 :=
  let kind := match data.payload with
    | .plainOldData len => (len <<< payloadShift) ||| 0b000
    | .notPlainOldData _ => 0b100
  let marked := if data.isMarked = .bit1 then kind ||| markBit else kind
  if data.writeBarrierActivated then marked ||| writeBarrierBit else marked

namespace Metadata

def new (data : MetadataExpanded) : Metadata where
  word := encodeWord data
  payload := data.payload.value

/-- The mask leaves one bit of the kind, so the `unimplemented!` arm of the
source has no value left. -/
def decode (header : Metadata) (v : UInt64) : MetadataExpanded where
  isMarked := if v &&& markBit ≠ 0 then .bit1 else .bit0
  writeBarrierActivated := decide (v &&& writeBarrierBit ≠ 0)
  payload :=
    if (v &&& objectTypeMask) >>> objectTypeShift = 0 then .plainOldData header.payload
    else .notPlainOldData header.payload

def get (header : Metadata) : MetadataExpanded := header.decode header.word

/-- `Ok` and `Err` both carry the value decoded before the update. -/
def tryUpdate (header : Metadata) (func : MetadataExpanded → Option MetadataExpanded) :
    Except MetadataExpanded MetadataExpanded × Metadata :=
  match func (header.decode header.word) with
  | some updated => (.ok (header.decode header.word), { header with word := encodeWord updated })
  | none => (.error (header.decode header.word), header)

end Metadata

/-- The shifted length leaves the three low bits to the flags. -/
private theorem shifted_or_and_low (len flags : UInt64) :
    ((len <<< 3) ||| flags) &&& 7 = flags &&& 7 := by
  apply UInt64.toNat_inj.mp
  have low (word : Nat) : word &&& 7 = word % 2 ^ 3 := Nat.and_two_pow_sub_one_eq_mod word 3
  have shifted : len.toNat * 2 ^ 3 % 2 ^ 64 % 2 ^ 3 = 0 := by omega
  simp only [UInt64.toNat_and, UInt64.toNat_or, UInt64.toNat_shiftLeft, UInt64.reduceToNat,
    Nat.reduceMod, low, Nat.or_mod_two_pow, Nat.shiftLeft_eq, shifted, Nat.zero_or]

private theorem and_eq_of_low {left right : UInt64} (same : left &&& 7 = right &&& 7)
    (mask : UInt64) (within : 7 &&& mask = mask) : left &&& mask = right &&& mask := by
  rw [← within, ← UInt64.and_assoc, ← UInt64.and_assoc, same]

/-- The kind and the two flags as `decode` reads them back. -/
def MetadataExpanded.lowBits (data : MetadataExpanded) : UInt64 :=
  (match data.payload with | .plainOldData _ => 0 | .notPlainOldData _ => 4) |||
    (if data.isMarked = .bit1 then 1 else 0) ||| (if data.writeBarrierActivated then 2 else 0)

private theorem encodeWord_low (data : MetadataExpanded) :
    encodeWord data &&& 7 = data.lowBits &&& 7 := by
  obtain ⟨marked, barrier, payload⟩ := data
  cases payload with
  | plainOldData len =>
      cases marked <;> cases barrier <;>
        simp only [encodeWord, MetadataExpanded.lowBits, payloadShift, markBit, writeBarrierBit,
          UInt64.or_assoc, ↓reduceIte, reduceCtorEq, Bool.false_eq_true] <;>
        exact shifted_or_and_low len _
  | notPlainOldData typeId =>
      cases marked <;> cases barrier <;>
        simp only [encodeWord, MetadataExpanded.lowBits, ↓reduceIte, reduceCtorEq, Bool.false_eq_true] <;>
        decide

namespace Metadata

theorem decode_encodeWord (header : Metadata) (data : MetadataExpanded)
    (stored : header.payload = data.payload.value) : header.decode (encodeWord data) = data := by
  simp only [decode, and_eq_of_low (encodeWord_low data) markBit (by decide),
    and_eq_of_low (encodeWord_low data) writeBarrierBit (by decide),
    and_eq_of_low (encodeWord_low data) objectTypeMask (by decide), stored]
  obtain ⟨marked, barrier, payload⟩ := data
  cases payload <;> cases marked <;> cases barrier <;>
    simp [MetadataExpanded.lowBits, MetadataEnum.value, markBit, writeBarrierBit, objectTypeMask,
      objectTypeShift] <;> decide

@[simp] theorem get_new (data : MetadataExpanded) : (new data).get = data :=
  decode_encodeWord _ data rfl

@[simp] theorem decode_payload_value (header : Metadata) (v : UInt64) :
    (header.decode v).payload.value = header.payload := by
  simp only [decode]
  split <;> rfl

/-- An accepted update that keeps the payload is read back as it was written. -/
theorem tryUpdate_accepted (header : Metadata) (func : MetadataExpanded → Option MetadataExpanded)
    (updated : MetadataExpanded) (accepted : func header.get = some updated)
    (kept : updated.payload = header.get.payload) :
    header.tryUpdate func = (.ok header.get, ⟨encodeWord updated, header.payload⟩) ∧
      Metadata.get ⟨encodeWord updated, header.payload⟩ = updated := by
  constructor
  · simp only [get] at accepted
    simp only [tryUpdate, accepted, get]
  · have stored : header.payload = updated.payload.value := by
      rw [kept, get, decode_payload_value]
    exact decode_encodeWord _ updated stored

theorem tryUpdate_refused (header : Metadata) (func : MetadataExpanded → Option MetadataExpanded)
    (refused : func header.get = none) : header.tryUpdate func = (.error header.get, header) := by
  simp only [get] at refused
  simp only [tryUpdate, refused, get]

/-- A closure of `try_update` that changes the flags only. -/
def KeepsPayload (func : MetadataExpanded → Option MetadataExpanded) : Prop :=
  ∀ data updated, func data = some updated → updated.payload = data.payload

/-- One `try_update` after the other, and what each of them returns. -/
def tryUpdates (header : Metadata) :
    List (MetadataExpanded → Option MetadataExpanded) → List (Except MetadataExpanded MetadataExpanded) × Metadata
  | [] => ([], header)
  | func :: rest =>
      match header.tryUpdate func with
      | (result, header) =>
          match header.tryUpdates rest with
          | (results, header) => (result :: results, header)

end Metadata

/-- The same on the decoded header: an update is accepted or refused, and the value before
it is returned. -/
def MetadataExpanded.updates (data : MetadataExpanded) :
    List (MetadataExpanded → Option MetadataExpanded) → List (Except MetadataExpanded MetadataExpanded) × MetadataExpanded
  | [] => ([], data)
  | func :: rest =>
      match func data with
      | some updated => (.ok data :: (updated.updates rest).1, (updated.updates rest).2)
      | none => (.error data :: (data.updates rest).1, (data.updates rest).2)

section Updates

variable {header : Metadata} {data : MetadataExpanded} {funcs : List (MetadataExpanded → Option MetadataExpanded)}

theorem MetadataExpanded.updates_payload (keeps : ∀ func ∈ funcs, Metadata.KeepsPayload func) :
    (data.updates funcs).2.payload = data.payload := by
  induction funcs generalizing data with
  | nil => rfl
  | cons func rest ih =>
      rw [List.forall_mem_cons] at keeps
      rw [updates]
      cases accepted : func data with
      | none => exact ih keeps.2
      | some updated => exact (ih keeps.2).trans (keeps.1 data updated accepted)

/-- Updates of the header word are those of the decoded header. -/
theorem Metadata.tryUpdates_refine (keeps : ∀ func ∈ funcs, KeepsPayload func) :
    (header.tryUpdates funcs).1 = (header.get.updates funcs).1 ∧
      (header.tryUpdates funcs).2.get = (header.get.updates funcs).2 := by
  induction funcs generalizing header with
  | nil => exact ⟨rfl, rfl⟩
  | cons func rest ih =>
      rw [List.forall_mem_cons] at keeps
      rw [tryUpdates, MetadataExpanded.updates]
      cases accepted : func header.get with
      | none =>
          rw [tryUpdate_refused header func accepted]
          obtain ⟨results, final⟩ := @ih header keeps.2
          exact ⟨congrArg _ results, final⟩
      | some updated =>
          obtain ⟨returned, decoded⟩ := tryUpdate_accepted header func updated accepted (keeps.1 _ updated accepted)
          rw [returned]
          obtain ⟨results, final⟩ := @ih ⟨encodeWord updated, header.payload⟩ keeps.2
          rw [decoded] at results final
          exact ⟨congrArg _ results, final⟩

/-- A header reads back as it was made, and keeps its kind and payload through updates of the flags. -/
theorem Metadata.header_round_trip (data : MetadataExpanded) :
    (new data).get = data ∧
      ∀ funcs, (∀ func ∈ funcs, KeepsPayload func) →
        ((new data).tryUpdates funcs).1 = (data.updates funcs).1 ∧
          ((new data).tryUpdates funcs).2.get = (data.updates funcs).2 ∧
          ((new data).tryUpdates funcs).2.get.payload = data.payload := by
  refine ⟨get_new data, fun funcs keeps => ?_⟩
  obtain ⟨results, final⟩ := @tryUpdates_refine (new data) funcs keeps
  rw [get_new] at results final
  refine ⟨results, final, ?_⟩
  rw [final, MetadataExpanded.updates_payload keeps]

/-- A length that fills the word, marked, and then left as it is. -/
theorem Metadata.header_round_trip_marks :
    ((new ⟨.bit0, false, .plainOldData 0xFFFFFFFFFFFFFFFF⟩).tryUpdates
        [fun data => some { data with isMarked := .bit1 }, fun _ => none]).2.get.payload = .plainOldData 0xFFFFFFFFFFFFFFFF := by
  refine ((header_round_trip ⟨.bit0, false, .plainOldData 0xFFFFFFFFFFFFFFFF⟩).2 _ ?_).2.2
  rw [List.forall_mem_cons, List.forall_mem_singleton]
  constructor
  · intro data updated accepted
    cases accepted
    rfl
  · intro data updated accepted
    cases accepted

end Updates

end UwUGC
