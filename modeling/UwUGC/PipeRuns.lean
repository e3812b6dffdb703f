import UwUGC.GcSync

/-! The pipe at the level of bytes, and any interleaving of the calls that
threads make on it. Packets are of at most `PIPE_BUF` bytes, so the system keeps
each of them whole. -/

set_option autoImplicit false

namespace UwUGC

/-- The bytes of a value in memory. Bytes that encode no value must not be
assumed to be initialised. -/
class ByteEncoded (α : Type) extends ByteSized α where
  bytes : α → List UInt8
  ofBytes : List UInt8 → Option α
  length_bytes : ∀ data, (bytes data).length = size
  ofBytes_bytes : ∀ data, ofBytes (bytes data) = some data

open ByteEncoded

instance : ByteEncoded Command where
  bytes := fun _ => []
  ofBytes := fun _ => some .unregisterThread
  length_bytes := fun _ => rfl
  ofBytes_bytes := fun _ => rfl

structure PacketPipe where
  capacity : Nat
  packets : List (List UInt8)
deriving DecidableEq, Repr

namespace PacketPipe

def new (capacity : Nat) : PacketPipe where
  capacity := capacity
  packets := []

def osWrite (pipe : PacketPipe) (bytes : List UInt8) : Option (Nat × PacketPipe) :=
  if bytes = [] then some (0, pipe)
  else if pipe.packets.length < pipe.capacity then
    some (bytes.length, { pipe with packets := pipe.packets ++ [bytes] })
  else none

def osRead (pipe : PacketPipe) (count : Nat) : Option (List UInt8 × PacketPipe) :=
  if count = 0 then some ([], pipe)
  else match pipe.packets with
    | [] => none
    | packet :: packets => some (packet.take count, { pipe with packets := packets })

variable {α : Type} [ByteEncoded α]

def write (pipe : PacketPipe) (data : α) : Except Panic (Option α × PacketPipe) :=
  match pipe.osWrite (bytes data) with
  | some (x, pipe) =>
      if x ≠ ByteSized.size α then .error (.message "We're using O_DIRECT, half write cannot occur")
      else .ok (none, pipe)
  | none => .ok (some data, pipe)

def read (α : Type) [ByteEncoded α] (pipe : PacketPipe) : Except Panic (Option α × PacketPipe) :=
  match pipe.osRead (ByteSized.size α) with
  | none => .ok (none, pipe)
  | some (buffer, pipe) =>
      if buffer.length ≠ ByteSized.size α then .error (.message "Half reads? or bug on the writer side")
      else do
        let data ← unwrap (ofBytes buffer)
        .ok (some data, pipe)

/-- The pipe of bytes holds the values of the other. -/
structure Encodes (pipe : PacketPipe) (values : Pipe α) : Prop where
  capacity : pipe.capacity = values.capacity
  packets : pipe.packets = values.packets.map bytes

theorem encodes_new (capacity : Nat) : (new capacity).Encodes (Pipe.new capacity : Pipe α) where
  capacity := rfl
  packets := rfl

theorem bytes_eq_nil_iff {data : α} : bytes data = [] ↔ ByteSized.size α = 0 := by
  rw [← List.length_eq_zero_iff, length_bytes]

def push (pipe : PacketPipe) (data : α) : PacketPipe :=
  { pipe with packets := pipe.packets ++ [bytes data] }

theorem Encodes.push {pipe : PacketPipe} {values : Pipe α} (encodes : pipe.Encodes values) (data : α) :
    (pipe.push data).Encodes { values with packets := values.packets ++ [data] } where
  capacity := encodes.capacity
  packets := by simp [PacketPipe.push, encodes.packets]

theorem write_sized (sized : 0 < ByteSized.size α) (pipe : PacketPipe) (data : α) :
    pipe.write data = .ok (none, pipe.push data) ∨ pipe.write data = .ok (some data, pipe) := by
  have some_bytes : bytes data ≠ [] := fun empty => by
    rw [bytes_eq_nil_iff] at empty
    exact absurd empty (Nat.ne_of_gt sized)
  by_cases room : pipe.packets.length < pipe.capacity
  · left
    simp [write, osWrite, some_bytes, room, length_bytes, PacketPipe.push]
  · right
    simp [write, osWrite, some_bytes, room]

theorem write_zeroSized (zero : ByteSized.size α = 0) (pipe : PacketPipe) (data : α) :
    pipe.write data = .ok (none, pipe) := by
  simp [write, osWrite, bytes_eq_nil_iff.mpr zero, zero]

theorem Encodes.read_cons {pipe : PacketPipe} {values : Pipe α} {data : α} {rest : List α}
    (encodes : pipe.Encodes values) (sized : 0 < ByteSized.size α) (queued : values.packets = data :: rest) :
    ∃ next, pipe.read α = .ok (some data, next) ∧ next.Encodes { values with packets := rest } := by
  have queue : pipe.packets = bytes data :: rest.map bytes := by
    rw [encodes.packets, queued, List.map_cons]
  have whole : (bytes data).take (ByteSized.size α) = bytes data :=
    List.take_of_length_le (Nat.le_of_eq (length_bytes data))
  refine ⟨{ pipe with packets := rest.map bytes }, ?_, encodes.capacity, rfl⟩
  simp only [read, osRead, Nat.ne_of_gt sized, queue, whole, length_bytes, ofBytes_bytes, unwrap_some, if_false,
    ne_eq, not_true_eq_false]
  rfl

theorem Encodes.read_nil {pipe : PacketPipe} {values : Pipe α} (encodes : pipe.Encodes values)
    (sized : 0 < ByteSized.size α) (empty : values.packets = []) : pipe.read α = .ok (none, pipe) := by
  have queue : pipe.packets = [] := by rw [encodes.packets, empty, List.map_nil]
  simp [read, osRead, Nat.ne_of_gt sized, queue]

theorem Encodes.write {pipe next : PacketPipe} {values : Pipe α} {data : α} {back : Option α}
    (encodes : pipe.Encodes values) (wrote : pipe.write data = .ok (back, next)) :
    ∃ valuesNext, values.write data = .ok (back, valuesNext) ∧ next.Encodes valuesNext := by
  rcases Nat.eq_zero_or_pos (ByteSized.size α) with zero | sized
  · rw [write_zeroSized zero] at wrote
    cases wrote
    exact ⟨values, Pipe.write_zeroSized zero values data, encodes⟩
  · have room : pipe.packets.length < pipe.capacity ↔ values.packets.length < values.capacity := by
      rw [encodes.packets, encodes.capacity, List.length_map]
    have some_bytes : bytes data ≠ [] := fun empty => by
      rw [bytes_eq_nil_iff] at empty
      exact absurd empty (Nat.ne_of_gt sized)
    by_cases free : values.packets.length < values.capacity
    · simp only [PacketPipe.write, osWrite, some_bytes, room.mpr free, length_bytes, if_true, if_false,
        ne_eq, not_true_eq_false] at wrote
      cases wrote
      exact ⟨_, by simp [Pipe.write, Pipe.osWrite, Nat.ne_of_gt sized, free], encodes.push data⟩
    · simp only [PacketPipe.write, osWrite, some_bytes, mt room.mp free, if_false] at wrote
      cases wrote
      exact ⟨values, by simp [Pipe.write, Pipe.osWrite, Nat.ne_of_gt sized, free], encodes⟩

theorem Encodes.read {pipe next : PacketPipe} {values : Pipe α} {data : Option α}
    (encodes : pipe.Encodes values) (took : pipe.read α = .ok (data, next)) :
    ∃ valuesNext, values.read = .ok (data, valuesNext) ∧ next.Encodes valuesNext := by
  rcases Nat.eq_zero_or_pos (ByteSized.size α) with zero | sized
  · have decoded : ofBytes [] = some (ByteSized.zeroSized zero : α) := by
      rw [← bytes_eq_nil_iff.mpr zero]
      exact ofBytes_bytes _
    have reads : pipe.read α = .ok (some (ByteSized.zeroSized zero), pipe) := by
      simp only [PacketPipe.read, osRead, zero, decoded, List.length_nil, ne_eq, not_true_eq_false, if_true,
        if_false, unwrap_some]
      rfl
    rw [reads] at took
    cases took
    exact ⟨values, Pipe.read_zeroSized zero values, encodes⟩
  · cases queued : values.packets with
    | nil =>
        rw [encodes.read_nil sized queued] at took
        cases took
        exact ⟨values, by simp [Pipe.read, Pipe.osRead, Nat.ne_of_gt sized, queued], encodes⟩
    | cons value rest =>
        obtain ⟨rest_pipe, reads, encodes⟩ := encodes.read_cons sized queued
        rw [reads] at took
        cases took
        exact ⟨_, by simp [Pipe.read, Pipe.osRead, Nat.ne_of_gt sized, queued], encodes⟩

/-! ## Threads -/

/-- Where a thread stands in `write_blocking`. -/
inductive Phase (α : Type) where
  | idle
  /-- At the head of its loop. -/
  | waiting (data : α)
  /-- `poll` has reported an event. -/
  | ready (data : α)
deriving DecidableEq, Repr

/-- The value that the call owns. -/
def Phase.held : Phase α → List α
  | .idle => []
  | .waiting data | .ready data => [data]

omit [ByteEncoded α] in
@[simp] theorem Phase.held_idle : (Phase.idle : Phase α).held = [] := rfl

inductive Action (Thread α : Type) where
  | write (self : Thread) (data : α)
  | read (self : Thread)
  | writeBlocking (self : Thread) (data : α)
  /-- Other threads may take the room that `poll` reports. -/
  | poll (self : Thread) (event : Bool)
  | pollError (self : Thread)
  | retry (self : Thread)
deriving DecidableEq, Repr

/-- What became of a value that was passed to a call. -/
inductive Outcome (α : Type) where
  | enqueued (data : α)
  | handedBack (data : α)
deriving DecidableEq, Repr

def Outcome.data : Outcome α → α
  | .enqueued data | .handedBack data => data

def Outcome.enqueued? : Outcome α → Option α
  | .enqueued data => some data
  | .handedBack _ => none

omit [ByteEncoded α] in
@[simp] theorem Outcome.data_enqueued (data : α) : (Outcome.enqueued data).data = data := rfl

omit [ByteEncoded α] in
@[simp] theorem Outcome.data_handedBack (data : α) : (Outcome.handedBack data).data = data := rfl

omit [ByteEncoded α] in
@[simp] theorem Outcome.enqueued?_enqueued (data : α) : (Outcome.enqueued data).enqueued? = some data := rfl

omit [ByteEncoded α] in
@[simp] theorem Outcome.enqueued?_handedBack (data : α) : (Outcome.handedBack data).enqueued? = none := rfl

/-- The pipe and its callers, with the history of the calls. -/
structure Session (Thread α : Type) where
  pipe : PacketPipe
  threads : Thread → Phase α
  submitted : Thread → List α
  outcomes : Thread → List (Outcome α)
  written : List (Thread × α)
  returned : List α

namespace Session

variable {Thread : Type}

def start (capacity : Nat) : Session Thread α where
  pipe := PacketPipe.new capacity
  threads := fun _ => .idle
  submitted := fun _ => []
  outcomes := fun _ => []
  written := []
  returned := []

variable [DecidableEq Thread]

def setPhase (session : Session Thread α) (self : Thread) (phase : Phase α) : Session Thread α :=
  { session with threads := Function.update session.threads self phase }

def submit (session : Session Thread α) (self : Thread) (data : α) : Session Thread α :=
  { session with submitted := Function.update session.submitted self (session.submitted self ++ [data]) }

def settle (session : Session Thread α) (self : Thread) (outcome : Outcome α) : Session Thread α :=
  { session with outcomes := Function.update session.outcomes self (session.outcomes self ++ [outcome]) }

/-- A write of a value that was submitted; `retry` says where the thread goes with a value that would block. -/
def attempt (session : Session Thread α) (self : Thread) (data : α) (retry : Bool) : Option (Session Thread α) :=
  match session.pipe.write data with
  | .error _ => none
  | .ok (none, pipe) =>
      let settled := (session.setPhase self .idle).settle self (.enqueued data)
      some { settled with pipe := pipe, written := session.written ++ [(self, data)] }
  | .ok (some data, pipe) =>
      if retry then some { session.setPhase self (.waiting data) with pipe := pipe }
      else some { (session.setPhase self .idle).settle self (.handedBack data) with pipe := pipe }

def step (session : Session Thread α) : Action Thread α → Option (Session Thread α)
  | .write self data =>
      match session.threads self with
      | .idle => (session.submit self data).attempt self data false
      | _ => none
  | .read self =>
      match session.threads self with
      | .idle =>
          match session.pipe.read α with
          | .error _ => none
          | .ok (none, pipe) => some { session with pipe := pipe }
          | .ok (some data, pipe) => some { session with pipe := pipe, returned := session.returned ++ [data] }
      | _ => none
  | .writeBlocking self data =>
      match session.threads self with
      | .idle => some ((session.submit self data).setPhase self (.waiting data))
      | _ => none
  | .poll self event =>
      match session.threads self with
      | .waiting data => some (if event then session.setPhase self (.ready data) else session)
      | _ => none
  | .pollError self =>
      match session.threads self with
      | .waiting data => some ((session.setPhase self .idle).settle self (.handedBack data))
      | _ => none
  | .retry self =>
      match session.threads self with
      | .ready data => session.attempt self data true
      | _ => none

/-- A lossless queue: the values that reads return, in the order of the writes,
and what becomes of the values that are passed to writes. -/
structure Lossless (session : Session Thread α) : Prop where
  returned : session.returned <+: session.written.map Prod.snd
  empty : (∃ pipe, session.pipe.read α = .ok (none, pipe)) ↔ session.returned = session.written.map Prod.snd
  reads : ∃ result : Option α × PacketPipe, session.pipe.read α = .ok result
  writes : ∀ data : α, session.pipe.write data = .ok (none, session.pipe.push data) ∨
    session.pipe.write data = .ok (some data, session.pipe)
  queued : (session.written.map Prod.snd).map bytes = session.returned.map bytes ++ session.pipe.packets
  /-- A value is with its call until it is enqueued or handed back. -/
  settled : ∀ thread, session.submitted thread =
    (session.outcomes thread).map Outcome.data ++ (session.threads thread).held
  enqueued : ∀ thread, (session.written.filter (·.1 = thread)).map Prod.snd =
    (session.outcomes thread).filterMap Outcome.enqueued?

/-- The invariant: the values in the pipe are those written and not yet returned. -/
structure Holds (session : Session Thread α) (values : Pipe α) : Prop where
  encodes : session.pipe.Encodes values
  written : session.written.map Prod.snd = session.returned ++ values.packets
  settled : ∀ thread, session.submitted thread =
    (session.outcomes thread).map Outcome.data ++ (session.threads thread).held
  enqueued : ∀ thread, (session.written.filter (·.1 = thread)).map Prod.snd =
    (session.outcomes thread).filterMap Outcome.enqueued?

theorem Holds.lossless {session : Session Thread α} {values : Pipe α} (holds : session.Holds values)
    (sized : 0 < ByteSized.size α) : session.Lossless where
  returned := by
    rw [holds.written]
    exact List.prefix_append _ _
  empty := by
    rw [holds.written, List.self_eq_append_right]
    constructor
    · rintro ⟨pipe, none_read⟩
      cases queued : values.packets with
      | nil => rfl
      | cons data rest =>
          obtain ⟨next, taken, _⟩ := holds.encodes.read_cons sized queued
          rw [taken] at none_read
          cases none_read
    · intro queued
      exact ⟨session.pipe, holds.encodes.read_nil sized queued⟩
  reads := by
    cases queued : values.packets with
    | nil => exact ⟨_, holds.encodes.read_nil sized queued⟩
    | cons data rest =>
        obtain ⟨next, taken, _⟩ := holds.encodes.read_cons sized queued
        exact ⟨_, taken⟩
  writes := write_sized sized session.pipe
  queued := by
    rw [holds.written, List.map_append, holds.encodes.packets]
  settled := holds.settled
  enqueued := holds.enqueued

theorem holds_start (capacity : Nat) : (start capacity : Session Thread α).Holds (Pipe.new capacity) where
  encodes := encodes_new capacity
  written := rfl
  settled := fun _ => rfl
  enqueued := fun _ => rfl

theorem attempt_cases {session next : Session Thread α} {self : Thread} {data : α} {retry : Bool}
    (sized : 0 < ByteSized.size α) (taken : session.attempt self data retry = some next) :
    next = { (session.setPhase self .idle).settle self (.enqueued data) with
        pipe := session.pipe.push data, written := session.written ++ [(self, data)] } ∨
      (retry = true ∧ next = session.setPhase self (.waiting data)) ∨
      (retry = false ∧ next = (session.setPhase self .idle).settle self (.handedBack data)) := by
  rcases write_sized sized session.pipe data with wrote | wrote <;> simp only [attempt, wrote] at taken
  · exact .inl (Option.some.inj taken).symm
  · cases retry with
    | true => exact .inr (.inl ⟨rfl, (Option.some.inj taken).symm⟩)
    | false => exact .inr (.inr ⟨rfl, (Option.some.inj taken).symm⟩)

theorem Holds.move {session : Session Thread α} {values : Pipe α} {self : Thread} (holds : session.Holds values)
    {phase : Phase α} (same : phase.held = (session.threads self).held) :
    (session.setPhase self phase).Holds values where
  encodes := holds.encodes
  written := holds.written
  enqueued := holds.enqueued
  settled := by
    intro thread
    rw [show (session.setPhase self phase).submitted = session.submitted from rfl, holds.settled thread]
    by_cases this : thread = self
    · cases this
      simp [setPhase, same]
    · simp [setPhase, this]

theorem Holds.submit {session : Session Thread α} {values : Pipe α} {self : Thread} (holds : session.Holds values)
    (idle : session.threads self = .idle) {phase : Phase α} {data : α} (held : phase.held = [data]) :
    ((session.submit self data).setPhase self phase).Holds values where
  encodes := holds.encodes
  written := holds.written
  enqueued := holds.enqueued
  settled := by
    intro thread
    have settled := holds.settled thread
    by_cases this : thread = self
    · cases this
      rw [idle] at settled
      simp [Session.submit, setPhase, held, settled]
    · simpa [Session.submit, setPhase, this] using settled

theorem Holds.handBack {session : Session Thread α} {values : Pipe α} {self : Thread} {data : α}
    (holds : session.Holds values) (held : (session.threads self).held = [data]) :
    ((session.setPhase self .idle).settle self (.handedBack data)).Holds values where
  encodes := holds.encodes
  written := holds.written
  enqueued := by
    intro thread
    have enqueued := holds.enqueued thread
    by_cases this : thread = self
    · cases this
      simpa [settle, setPhase, List.filterMap_cons] using enqueued
    · simpa [settle, setPhase, this] using enqueued
  settled := by
    intro thread
    have settled := holds.settled thread
    by_cases this : thread = self
    · cases this
      simpa [settle, setPhase, held] using settled
    · simpa [settle, setPhase, this] using settled

theorem Holds.enqueue {session : Session Thread α} {values : Pipe α} {self : Thread} {data : α}
    (holds : session.Holds values) (held : (session.threads self).held = [data]) :
    Holds { (session.setPhase self .idle).settle self (.enqueued data) with
      pipe := session.pipe.push data, written := session.written ++ [(self, data)] }
      { values with packets := values.packets ++ [data] } where
  encodes := holds.encodes.push data
  written := by
    rw [List.map_append, holds.written, List.append_assoc]
    rfl
  enqueued := by
    intro thread
    have enqueued := holds.enqueued thread
    by_cases this : thread = self
    · cases this
      simpa [settle, setPhase, List.filterMap_cons] using enqueued
    · simpa [settle, setPhase, this, Ne.symm this] using enqueued
  settled := by
    intro thread
    have settled := holds.settled thread
    by_cases this : thread = self
    · cases this
      simpa [settle, setPhase, held] using settled
    · simpa [settle, setPhase, this] using settled

theorem Holds.attempt {session next : Session Thread α} {values : Pipe α} {self : Thread} {data : α} {retry : Bool}
    (holds : session.Holds values) (sized : 0 < ByteSized.size α) (held : (session.threads self).held = [data])
    (taken : session.attempt self data retry = some next) : ∃ valuesNext, next.Holds valuesNext := by
  rcases attempt_cases sized taken with enqueued | ⟨_, waits⟩ | ⟨_, back⟩
  · rw [enqueued]
    exact ⟨_, holds.enqueue held⟩
  · rw [waits]
    exact ⟨_, holds.move held.symm⟩
  · rw [back]
    exact ⟨_, holds.handBack held⟩

theorem Holds.step {session next : Session Thread α} {values : Pipe α} {action : Action Thread α}
    (holds : session.Holds values) (sized : 0 < ByteSized.size α) (taken : session.step action = some next) :
    ∃ valuesNext, next.Holds valuesNext := by
  cases action with
  | write self data =>
      cases phase : session.threads self with
      | idle =>
          simp only [Session.step, phase] at taken
          -- A write sets the phase anew, so that of the submitted value can be any.
          have submitted : ((session.submit self data).setPhase self (.ready data)).Holds values :=
            holds.submit phase rfl
          have same : ((session.submit self data).setPhase self (.ready data)).attempt self data false =
              (session.submit self data).attempt self data false := by
            simp [Session.attempt, Session.submit, setPhase]
          rw [← same] at taken
          exact submitted.attempt sized (by simp [setPhase, Phase.held]) taken
      | waiting _ | ready _ => simp [Session.step, phase] at taken
  | read self =>
      cases phase : session.threads self with
      | idle =>
          cases queued : values.packets with
          | nil =>
              simp only [Session.step, phase, holds.encodes.read_nil sized queued] at taken
              cases taken
              exact ⟨values, holds⟩
          | cons data rest =>
              obtain ⟨pipe, read, encodes⟩ := holds.encodes.read_cons sized queued
              simp only [Session.step, phase, read] at taken
              cases taken
              refine ⟨{ values with packets := rest }, encodes, ?_, holds.settled, holds.enqueued⟩
              rw [List.append_assoc, List.singleton_append, ← queued]
              exact holds.written
      | waiting _ | ready _ => simp [Session.step, phase] at taken
  | writeBlocking self data =>
      cases phase : session.threads self with
      | idle =>
          simp only [Session.step, phase] at taken
          cases taken
          exact ⟨values, holds.submit phase rfl⟩
      | waiting _ | ready _ => simp [Session.step, phase] at taken
  | poll self event =>
      cases phase : session.threads self with
      | waiting data =>
          simp only [Session.step, phase] at taken
          cases event <;> cases taken
          · exact ⟨values, holds⟩
          · exact ⟨values, holds.move (by rw [phase]; rfl)⟩
      | idle | ready _ => simp [Session.step, phase] at taken
  | pollError self =>
      cases phase : session.threads self with
      | waiting data =>
          simp only [Session.step, phase] at taken
          cases taken
          exact ⟨values, holds.handBack (by rw [phase]; rfl)⟩
      | idle | ready _ => simp [Session.step, phase] at taken
  | retry self =>
      cases phase : session.threads self with
      | ready data =>
          simp only [Session.step, phase] at taken
          exact holds.attempt sized (by rw [phase]; rfl) taken
      | idle | waiting _ => simp [Session.step, phase] at taken

/-- The pipe is a lossless queue over every interleaving exactly where values take bytes. -/
theorem lossless_iff (capacity : Nat) (actions : List (Action Thread α)) :
    Transition.Throughout step (start capacity) actions Lossless ↔ 0 < ByteSized.size α := by
  constructor
  · intro throughout
    have initial := throughout [] actions (start capacity) rfl rfl
    rcases Nat.eq_zero_or_pos (ByteSized.size α) with zero | sized
    · -- A write leaves the queue as it is.
      have data : α := ByteSized.zeroSized zero
      rcases initial.writes data with wrote | wrote <;> rw [write_zeroSized zero] at wrote <;> cases wrote
    · exact sized
  · intro sized past rest state _ ran
    have reached : ∃ values, state.Holds values := by
      apply Transition.run_invariant (fun state => ∃ values, state.Holds values) ran ⟨_, holds_start capacity⟩
      rintro state action next ⟨values, holds⟩ taken
      exact holds.step sized taken
    obtain ⟨values, holds⟩ := reached
    exact holds.lossless sized

/-- One command is written, and every read returns one. -/
theorem commands_duplicated :
    ∃ final, Transition.run step (start 1 : Session Unit Command)
      [.write () .unregisterThread, .read (), .read ()] = some final ∧
      final.written = [((), .unregisterThread)] ∧
      final.returned = [.unregisterThread, .unregisterThread] ∧ final.pipe.packets = [] ∧ ¬ final.Lossless := by
  refine ⟨_, rfl, rfl, rfl, rfl, fun lossless => ?_⟩
  have shorter := lossless.returned.length_le
  exact absurd shorter (by decide)

end Session

end PacketPipe

end UwUGC
