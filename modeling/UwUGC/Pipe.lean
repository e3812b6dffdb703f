import UwUGC.Panic

/-! A pipe of values over the packet pipe of the system. A write or read of no
bytes returns at once and leaves the queue as it is. -/

set_option autoImplicit false

namespace UwUGC

/-- `size_of::<T>()`; a type of no bytes has the one value that no bytes encode. -/
class ByteSized (α : Type) where
  size : Nat
  zeroSized : size = 0 → α

/-- The packets queued between the two ends, each one value. -/
structure Pipe (α : Type) where
  capacity : Nat
  packets : List α
deriving DecidableEq, Repr

namespace Pipe

variable {α : Type}

def new (capacity : Nat) : Pipe α where
  capacity := capacity
  packets := []

def readable (pipe : Pipe α) : Bool := !pipe.packets.isEmpty

variable [ByteSized α]

/-- `write(2)` of the bytes of a value; `None` is `EAGAIN`. -/
def osWrite (pipe : Pipe α) (data : α) : Option (Nat × Pipe α) :=
  if ByteSized.size α = 0 then some (0, pipe)
  else if pipe.packets.length < pipe.capacity then
    some (ByteSized.size α, { pipe with packets := pipe.packets ++ [data] })
  else none

/-- `read(2)` of the bytes of a value; `None` is `EAGAIN`. -/
def osRead (pipe : Pipe α) : Option (Nat × α × Pipe α) :=
  if zero : ByteSized.size α = 0 then some (0, ByteSized.zeroSized zero, pipe)
  else match pipe.packets with
    | [] => none
    | data :: packets => some (ByteSized.size α, data, { pipe with packets := packets })

/-- A value that would block is handed back. -/
def write (pipe : Pipe α) (data : α) : Except Panic (Option α × Pipe α) :=
  match pipe.osWrite data with
  | some (x, pipe) =>
      if x ≠ ByteSized.size α then .error (.message "We're using O_DIRECT, half write cannot occur")
      else .ok (none, pipe)
  | none => .ok (some data, pipe)

def read (pipe : Pipe α) : Except Panic (Option α × Pipe α) :=
  match pipe.osRead with
  | none => .ok (none, pipe)
  | some (ret, data, pipe) =>
      if ret ≠ ByteSized.size α then .error (.message "Half reads? or bug on the writer side")
      else .ok (some data, pipe)

theorem write_zeroSized (zero : ByteSized.size α = 0) (pipe : Pipe α) (data : α) :
    pipe.write data = .ok (none, pipe) := by
  simp [write, osWrite, zero]

theorem read_zeroSized (zero : ByteSized.size α = 0) (pipe : Pipe α) :
    pipe.read = .ok (some (ByteSized.zeroSized zero), pipe) := by
  simp [read, osRead, zero]

end Pipe

end UwUGC
