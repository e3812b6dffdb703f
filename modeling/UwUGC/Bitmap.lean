import UwUGC.Panic
import Mathlib.Data.Nat.Basic

/-! The bitmap of pages that are done: bits in words, each update one atomic step. -/

set_option autoImplicit false

namespace UwUGC

structure AtomicBitmap where
  mem : List (BitVec 64)
  len : Nat
deriving DecidableEq, Repr

namespace AtomicBitmap

def new (len : Nat) : AtomicBitmap where
  mem := List.replicate ((len + 63) / 64) 0
  len := len

def calcBitPos (index : Nat) : Nat × BitVec 64 := (index / 64, 1 <<< (index % 64))

def update (bitmap : AtomicBitmap) (idx : Nat) (func : Bool → Bool) : Except Panic (Bool × AtomicBitmap) :=
  if idx ≥ bitmap.len then .error (.message "out of index bound")
  else
    let (word, mask) := calcBitPos idx
    match bitmap.mem[word]? with
    | none => .error .indexOutOfBounds
    | some x =>
        let updated := if func (x &&& mask != 0) then x ||| mask else x &&& ~~~mask
        .ok (x &&& mask != 0, { bitmap with mem := bitmap.mem.set word updated })

def set (bitmap : AtomicBitmap) (idx : Nat) (value : Bool) : Except Panic (Bool × AtomicBitmap) :=
  bitmap.update idx fun _ => value

def bit (bitmap : AtomicBitmap) (idx : Nat) : Bool :=
  (bitmap.mem.getD (idx / 64) 0).getLsbD (idx % 64)

/-- The words have room for every bit. -/
def Sized (bitmap : AtomicBitmap) : Prop := bitmap.mem.length = (bitmap.len + 63) / 64

theorem and_mask_ne_zero (word : BitVec 64) (idx : Nat) :
    (word &&& (calcBitPos idx).2 != 0) = word.getLsbD (idx % 64) := by
  have inside : idx % 64 < 64 := Nat.mod_lt _ (by omega)
  change (word &&& BitVec.twoPow 64 (idx % 64) != 0) = _
  rw [BitVec.and_twoPow]
  cases word.getLsbD (idx % 64) with
  | false => simp
  | true =>
      have filled : BitVec.twoPow 64 (idx % 64) ≠ 0 := by
        intro empty
        have bit := @BitVec.getLsbD_twoPow 64 (idx % 64) (idx % 64)
        simp [empty, inside] at bit
      simpa using filled

/-- Writing one bit of a word keeps the others. -/
theorem getLsbD_written (word : BitVec 64) (value : Bool) (idx other : Nat) :
    (if value then word ||| (calcBitPos idx).2 else word &&& ~~~(calcBitPos idx).2).getLsbD (other % 64) =
      if other % 64 = idx % 64 then value else word.getLsbD (other % 64) := by
  have inside : other % 64 < 64 := Nat.mod_lt _ (by omega)
  change (if value then word ||| BitVec.twoPow 64 (idx % 64) else word &&& ~~~BitVec.twoPow 64 (idx % 64)).getLsbD _ = _
  have mask : (BitVec.twoPow 64 (idx % 64)).getLsbD (other % 64) = decide (other % 64 = idx % 64) := by
    rw [BitVec.getLsbD_twoPow, decide_eq_true (Nat.mod_lt idx (by omega)), Bool.true_and]
    simp only [eq_comm]
  cases value with
  | true =>
      rw [if_pos rfl, BitVec.getLsbD_or, mask]
      by_cases here : other % 64 = idx % 64 <;> simp [here]
  | false =>
      rw [if_neg Bool.false_ne_true, BitVec.getLsbD_and, BitVec.getLsbD_not, mask, decide_eq_true inside, Bool.true_and]
      by_cases here : other % 64 = idx % 64 <;> simp [here]

theorem Sized.new (len : Nat) : (new len).Sized := List.length_replicate

theorem bit_new (len idx : Nat) : (new len).bit idx = false := by
  simp only [bit, AtomicBitmap.new, List.getD_eq_getElem?_getD, List.getElem?_replicate]
  split <;> simp

/-- An update tells the old bit, writes the new one and changes no other. -/
theorem update_eq_ok {bitmap : AtomicBitmap} {idx : Nat} (func : Bool → Bool) (sized : bitmap.Sized)
    (inside : idx < bitmap.len) :
    ∃ later, bitmap.update idx func = .ok (bitmap.bit idx, later) ∧ later.Sized ∧ later.len = bitmap.len ∧
      ∀ other, later.bit other = if other = idx then func (bitmap.bit idx) else bitmap.bit other := by
  have bound : idx / 64 < bitmap.mem.length := by
    rw [sized]
    omega
  have word : bitmap.mem[idx / 64]? = some bitmap.mem[idx / 64] := List.getElem?_eq_getElem bound
  have here : bitmap.bit idx = bitmap.mem[idx / 64].getLsbD (idx % 64) := by
    rw [bit, List.getD_eq_getElem?_getD, word, Option.getD_some]
  have returned : bitmap.update idx func = .ok (bitmap.bit idx, { bitmap with mem := bitmap.mem.set (idx / 64) (
      if func (bitmap.bit idx) then bitmap.mem[idx / 64] ||| (calcBitPos idx).2
      else bitmap.mem[idx / 64] &&& ~~~(calcBitPos idx).2) }) := by
    rw [here, ← and_mask_ne_zero]
    simp only [update, calcBitPos, word, ge_iff_le, if_neg (Nat.not_le.mpr inside)]
  refine ⟨_, returned, by simpa [Sized] using sized, rfl, ?_⟩
  intro other
  simp only [bit, List.getD_eq_getElem?_getD, List.getElem?_set]
  by_cases same : idx / 64 = other / 64
  · have position : other % 64 = idx % 64 ↔ other = idx := by omega
    rw [if_pos same, if_pos (same ▸ bound), ← same, word, Option.getD_some, Option.getD_some, getLsbD_written]
    simp only [position]
  · rw [if_neg same]
    have apart : other ≠ idx := by
      intro equal
      exact same (by rw [equal])
    rw [if_neg apart]

/-- Setting a bit tells the old one and changes no other. -/
theorem set_true_eq_ok {bitmap : AtomicBitmap} {idx : Nat} (sized : bitmap.Sized) (inside : idx < bitmap.len) :
    ∃ later, bitmap.set idx true = .ok (bitmap.bit idx, later) ∧ later.Sized ∧ later.len = bitmap.len ∧
      ∀ other, later.bit other = (decide (other = idx) || bitmap.bit other) := by
  obtain ⟨later, returned, behind, same, bits⟩ := update_eq_ok (fun _ => true) sized inside
  refine ⟨later, returned, behind, same, ?_⟩
  intro other
  rw [bits]
  by_cases here : other = idx <;> simp [here]

inductive Op where
  | set (idx : Nat) (value : Bool)
  | update (idx : Nat) (func : Bool → Bool)

namespace Op

def idx : Op → Nat
  | set idx _ => idx
  | update idx _ => idx

/-- The value that is requested, from the one that is there. -/
def func : Op → Bool → Bool
  | set _ value => fun _ => value
  | update _ func => func

def apply (bitmap : AtomicBitmap) : Op → Except Panic (Bool × AtomicBitmap)
  | set idx value => bitmap.set idx value
  | update idx func => bitmap.update idx func

theorem apply_eq (op : Op) (bitmap : AtomicBitmap) : op.apply bitmap = bitmap.update op.idx op.func := by
  cases op <;> rfl

end Op

section Calls

variable {Thread : Type}

/-- The calls of all threads, in the order in which their atomic steps fall. -/
def calls (bitmap : AtomicBitmap) : List (Thread × Op) → Except Panic (List Bool × AtomicBitmap)
  | [] => .ok ([], bitmap)
  | (_, op) :: rest => do
      let (old, bitmap) ← op.apply bitmap
      let (olds, bitmap) ← bitmap.calls rest
      .ok (old :: olds, bitmap)

/-- The same calls on an array of booleans. -/
def booleans (bits : List Bool) : List (Thread × Op) → List Bool × List Bool
  | [] => ([], bits)
  | (_, op) :: rest =>
      let old := bits.getD op.idx false
      let (olds, bits) := booleans (bits.set op.idx (op.func old)) rest
      (old :: olds, bits)

/-- The array that a bitmap stands for. -/
def bits (bitmap : AtomicBitmap) : List Bool := (List.range bitmap.len).map bitmap.bit

variable {bitmap : AtomicBitmap} {booleanBits : List Bool} {ops past rest : List (Thread × Op)} {idx : Nat}

theorem bits_getD (inside : idx < bitmap.len) : bitmap.bits.getD idx false = bitmap.bit idx := by
  simp [bits, List.getD_eq_getElem?_getD, inside]

theorem bits_new (len : Nat) : (new len).bits = List.replicate len false := by
  rw [bits, List.eq_replicate_iff]
  constructor
  · simp [AtomicBitmap.new]
  · intro value member
    obtain ⟨idx, _, rfl⟩ := List.mem_map.mp member
    exact bit_new len idx

theorem calls_refine (sized : bitmap.Sized) (inside : ∀ call ∈ ops, call.2.idx < bitmap.len) :
    ∃ final, bitmap.calls ops = .ok ((booleans bitmap.bits ops).1, final) ∧ final.bits = (booleans bitmap.bits ops).2 := by
  induction ops generalizing bitmap with
  | nil => exact ⟨bitmap, rfl, rfl⟩
  | cons call rest ih =>
      obtain ⟨thread, op⟩ := call
      rw [List.forall_mem_cons] at inside
      obtain ⟨later, returned, behind, same, written⟩ := update_eq_ok op.func sized inside.1
      have bits : later.bits = bitmap.bits.set op.idx (op.func (bitmap.bit op.idx)) := by
        apply List.ext_getElem?
        intro other
        rw [List.getElem?_set]
        by_cases beyond : bitmap.len ≤ other
        · have own : op.idx < bitmap.len := inside.1
          have different : ¬ op.idx = other := by omega
          simp [AtomicBitmap.bits, same, different, beyond]
        · have below : other < bitmap.len := Nat.not_le.mp beyond
          by_cases here : op.idx = other
          · subst here
            simp [AtomicBitmap.bits, same, written, below]
          · simp [AtomicBitmap.bits, same, written, below, here, Ne.symm here]
      obtain ⟨final, continued, last⟩ := ih behind (same ▸ inside.2)
      rw [bits] at continued last
      refine ⟨final, ?_, ?_⟩
      · simp only [calls, op.apply_eq, returned, bind, Except.bind, continued, booleans, bits_getD inside.1]
      · simp only [last, booleans, bits_getD inside.1]

theorem booleans_append :
    (booleans booleanBits (past ++ rest)).1 =
      (booleans booleanBits past).1 ++ (booleans (booleans booleanBits past).2 rest).1 := by
  induction past generalizing booleanBits with
  | nil => rfl
  | cons call past ih => simp only [List.cons_append, booleans, ih]

theorem length_booleans : (booleans booleanBits ops).1.length = ops.length := by
  induction ops generalizing booleanBits with
  | nil => rfl
  | cons call rest ih => simp only [booleans, List.length_cons, ih]

/-- How many of the calls on a bit found it clear. -/
def foundClear (idx : Nat) (ops : List (Thread × Op)) (olds : List Bool) : Nat :=
  (ops.zip olds).countP fun (call, old) => call.2.idx = idx ∧ old = false

/-- All calls on the bit are those that set it. -/
def OnlySets (idx : Nat) (ops : List (Thread × Op)) : Prop := ∀ call ∈ ops, call.2.idx = idx → call.2 = .set idx true

theorem foundClear_set (sets : OnlySets idx ops) (filled : booleanBits[idx]? = some true) :
    foundClear idx ops (booleans booleanBits ops).1 = 0 := by
  induction ops generalizing booleanBits with
  | nil => rfl
  | cons call rest ih =>
      obtain ⟨thread, op⟩ := call
      obtain ⟨first, sets⟩ := List.forall_mem_cons.mp sets
      simp only [booleans, foundClear, List.zip_cons_cons, List.countP_cons]
      by_cases here : op.idx = idx
      · have kept : (booleanBits.set op.idx (op.func (booleanBits.getD op.idx false)))[idx]? = some true := by
          rw [here, List.getElem?_set_self (List.getElem?_eq_some_iff.mp filled).1, show op = .set idx true from first here]
          rfl
        have tail := ih sets kept
        rw [foundClear] at tail
        rw [tail]
        simp [here, List.getD_eq_getElem?_getD, filled]
      · have kept : (booleanBits.set op.idx (op.func (booleanBits.getD op.idx false)))[idx]? = some true := by
          rw [List.getElem?_set_ne here, filled]
        have tail := ih sets kept
        rw [foundClear] at tail
        rw [tail]
        simp [here]

theorem foundClear_clear (sets : OnlySets idx ops) (clear : booleanBits[idx]? = some false)
    (tried : ∃ call ∈ ops, call.2.idx = idx) : foundClear idx ops (booleans booleanBits ops).1 = 1 := by
  induction ops generalizing booleanBits with
  | nil => simp at tried
  | cons call rest ih =>
      obtain ⟨thread, op⟩ := call
      obtain ⟨first, sets⟩ := List.forall_mem_cons.mp sets
      simp only [booleans, foundClear, List.zip_cons_cons, List.countP_cons]
      by_cases here : op.idx = idx
      · have filled : (booleanBits.set op.idx (op.func (booleanBits.getD op.idx false)))[idx]? = some true := by
          rw [here, List.getElem?_set_self (List.getElem?_eq_some_iff.mp clear).1, show op = .set idx true from first here]
          rfl
        have tail := foundClear_set sets filled
        rw [foundClear] at tail
        rw [tail]
        simp [here, List.getD_eq_getElem?_getD, clear]
      · have kept : (booleanBits.set op.idx (op.func (booleanBits.getD op.idx false)))[idx]? = some false := by
          rw [List.getElem?_set_ne here, clear]
        have later : ∃ call ∈ rest, call.2.idx = idx := by simpa [here] using tried
        have tail := ih sets kept later
        rw [foundClear] at tail
        rw [tail]
        simp [here]

/-- A bitmap is an array of booleans, and of the calls that set a clear bit one finds it clear. -/
theorem refines_booleans (len : Nat) (ops : List (Thread × Op)) (inside : ∀ call ∈ ops, call.2.idx < len) :
    ∃ olds final, (new len).calls ops = .ok (olds, final) ∧
      (olds, final.bits) = booleans (List.replicate len false) ops ∧
      ∀ past rest idx, ops = past ++ rest → (booleans (List.replicate len false) past).2[idx]? = some false →
        OnlySets idx rest → (∃ call ∈ rest, call.2.idx = idx) →
        foundClear idx rest (olds.drop past.length) = 1 := by
  obtain ⟨final, returned, bits⟩ := calls_refine (Sized.new len) inside
  rw [bits_new] at returned bits
  refine ⟨_, final, returned, by rw [bits], ?_⟩
  intro past rest idx split clear sets tried
  rw [split, booleans_append, List.drop_left' length_booleans]
  exact foundClear_clear sets clear tried

/-- Two threads set the bit of the second word, and one flips another bit between them. -/
theorem refines_booleans_race : ∃ olds final,
    (new 65).calls [(0, .set 64 true), (1, .update 3 not), (2, .set 64 true)] = .ok (olds, final) ∧
      foundClear 64 [(0, .set 64 true), (1, .update 3 not), (2, .set 64 true)] olds = 1 := by
  obtain ⟨olds, final, returned, _, once⟩ :=
    refines_booleans 65 [(0, .set 64 true), (1, .update 3 not), (2, .set 64 true)] (by simp [Op.idx])
  refine ⟨olds, final, returned, ?_⟩
  exact once [] _ 64 rfl rfl (by simp [OnlySets, Op.idx]) ⟨_, List.mem_cons_self, rfl⟩

end Calls

end AtomicBitmap

end UwUGC
