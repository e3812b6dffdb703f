import UwUGC.Plus.AllocSizes
import UwUGC.State.Builds

/-! The typed allocations of a thread in either build, and how many bytes they reserve. In
a release build the bytes of an array are a product and three sums that wrap. -/

set_option autoImplicit false

namespace UwUGC.Build

open Plus State

variable (build : Build)

def contextAllocFast (statics : UInt64 → Descriptor) (context : Plus.Context) (typeId : UInt64) (extraBytes : Nat) :
    Except Panic (Option Nat × Plus.Context) := do
  let (result, mutator) ← build.allocFast (Types.typeManager statics) context.mutator (.typed typeId) extraBytes
  { context with mutator }.addResult result

def contextAllocSlow (statics : UInt64 → Descriptor) (waitCycle : WaitCycle) (context : Plus.Context)
    (typeId : UInt64) (extraBytes : Nat) : Except Panic (Option Nat × Plus.Context) := do
  context.roots.inner.checkStored
    "There stil active RootReference, store them before calling alloc_slow (its implicitly also safepoint)"
  let (result, mutator) ←
    build.allocSlow (Types.typeManager statics) waitCycle.mutator context.mutator (.typed typeId) extraBytes
  { mutator, roots := context.roots.mapPointers waitCycle.moves : Plus.Context }.addResult result

def allocObject (statics : UInt64 → Descriptor) (waitCycle : WaitCycle) (safepoint : List Nat)
    (context : Plus.Context) (typeId : UInt64) (extraBytes : Nat) : Except Panic (Option Nat × Plus.Context) := do
  let (result, context) ← build.contextAllocFast statics context typeId extraBytes
  match result with
  | some ref => .ok (some ref, context)
  | none => do
      let context ← context.eachRef RootRefRaw.store safepoint
      let (result, context) ← build.contextAllocSlow statics waitCycle context typeId extraBytes
      let context ← context.eachRef (RootRefRaw.load build) safepoint
      .ok (result, context)

def allocArray (statics : UInt64 → Descriptor) (waitCycle : WaitCycle) (safepoint : List Nat) (context : Plus.Context)
    (element : ObjectType) (descriptor : UInt64) (extraBytes len : Nat) (init : Nat → Nat) :
    Except Panic (Option Nat × Plus.Context) := do
  let dataBytes ← build.mul element.sizeOf len
  let typeId ← typeIdFrom descriptor
  let bytes ← build.add dataBytes extraBytes
  let (result, context) ← build.allocObject statics waitCycle safepoint context typeId bytes
  match result with
  | some ref => do
      let data := (← context.getPtr ref) + metadataSize
      let headed := Function.update context.mutator.memory data len
      .ok (some ref, context.writeMemory
        (writeValue headed (data + arrayHeaderSize) (element.sizeOf * len) init))
  | none => .ok (none, context)

theorem allocArray_debug (statics : UInt64 → Descriptor) (waitCycle : WaitCycle) (safepoint : List Nat)
    (context : Plus.Context) (element : ObjectType) (descriptor : UInt64) (extraBytes len : Nat) (init : Nat → Nat) :
    debug.allocArray statics waitCycle safepoint context element descriptor extraBytes len init =
      Plus.allocArray statics waitCycle safepoint context element descriptor extraBytes len init := by
  have fast (context : Plus.Context) (typeId : UInt64) (bytes : Nat) :
      debug.contextAllocFast statics context typeId bytes = context.allocFast statics typeId bytes := rfl
  have slow (context : Plus.Context) (typeId : UInt64) (bytes : Nat) :
      debug.contextAllocSlow statics waitCycle context typeId bytes =
        context.allocSlow statics waitCycle typeId bytes := by
    simp only [contextAllocSlow, allocSlow_debug]
    rfl
  have object (context : Plus.Context) (typeId : UInt64) (bytes : Nat) :
      debug.allocObject statics waitCycle safepoint context typeId bytes =
        context.allocObject statics waitCycle safepoint typeId bytes := by
    simp only [allocObject, fast, slow]
    rfl
  simp only [allocArray, object]
  rfl

variable {build} {statics : UInt64 → Descriptor} {waitCycle : WaitCycle} {context after : Plus.Context}
  {typeId : UInt64} {bytes ref : Nat} {safepoint : List Nat} {init : Nat → Nat}

def Allocated (build : Build) (statics : UInt64 → Descriptor) (typeId : UInt64) (bytes ref : Nat)
    (after : Plus.Context) : Prop :=
  ∃ ptr reserved, after.Points ref ptr ∧ Servable reserved ∧
    build.Reserved (Types.typeManager statics) (.typed typeId) bytes ptr reserved after.mutator

/-- The collector and the other threads leave a table in the address space. -/
def WaitCycle.KeepsSpace (waitCycle : WaitCycle) : Prop :=
  ∀ mutator, mutator.mm.Addressable → (waitCycle.mutator mutator).mm.Addressable

theorem contextAllocFast_allocated (addressable : context.mutator.mm.Addressable)
    (returned : build.contextAllocFast statics context typeId bytes = .ok (some ref, after)) :
    build.Allocated statics typeId bytes ref after := by
  simp only [contextAllocFast, bind_eq_ok] at returned
  obtain ⟨⟨result, mutator⟩, allocated, added⟩ := returned
  obtain ⟨ptr, rfl, _, same, points⟩ := Plus.Context.addResult_eq_ok added
  obtain ⟨reserved, granted, servable⟩ := allocFast_reserved addressable allocated
  exact ⟨ptr, reserved, points, servable, same ▸ granted⟩

theorem contextAllocFast_failed (addressable : context.mutator.mm.Addressable)
    (returned : build.contextAllocFast statics context typeId bytes = .ok (none, after)) :
    after.mutator.mm.Addressable := by
  simp only [contextAllocFast, bind_eq_ok] at returned
  obtain ⟨⟨result, mutator⟩, allocated, added⟩ := returned
  cases result with
  | none =>
      cases added
      exact allocFast_failed addressable allocated
  | some ptr =>
      simp only [Plus.Context.addResult, bind_eq_ok] at added
      obtain ⟨_, _, rest⟩ := added
      cases rest

theorem contextAllocSlow_allocated (keeps : WaitCycle.KeepsSpace waitCycle)
    (addressable : context.mutator.mm.Addressable)
    (returned : build.contextAllocSlow statics waitCycle context typeId bytes = .ok (some ref, after)) :
    ref = context.roots.refs.length ∧ build.Allocated statics typeId bytes ref after := by
  simp only [contextAllocSlow, bind_eq_ok] at returned
  obtain ⟨_, _, ⟨result, mutator⟩, allocated, added⟩ := returned
  obtain ⟨ptr, rfl, last, same, points⟩ := Plus.Context.addResult_eq_ok added
  obtain ⟨reserved, granted, servable⟩ := retryAlloc_reserved keeps addressable allocated
  exact ⟨last, ptr, reserved, points, servable, same ▸ granted⟩

theorem allocObject_allocated (keeps : WaitCycle.KeepsSpace waitCycle) (addressable : context.mutator.mm.Addressable)
    (returned : build.allocObject statics waitCycle safepoint context typeId bytes = .ok (some ref, after)) :
    build.Allocated statics typeId bytes ref after := by
  simp only [allocObject, bind_eq_ok] at returned
  obtain ⟨⟨result, fast⟩, tried, rest⟩ := returned
  cases result with
  | some _ =>
      cases rest
      exact contextAllocFast_allocated addressable tried
  | none =>
      simp only [bind_eq_ok] at rest
      obtain ⟨stored, before, ⟨slowResult, slow⟩, allocated, loaded, behind, rest⟩ := rest
      cases rest
      obtain ⟨sameMutator, length, below, _⟩ := Plus.Context.eachRef_eq_ok before
      have room : stored.mutator.mm.Addressable := by
        rw [sameMutator]
        exact contextAllocFast_failed addressable tried
      obtain ⟨last, ptr, reserved, ⟨idx, points⟩, servable, granted⟩ :=
        contextAllocSlow_allocated keeps room allocated
      obtain ⟨mutator, _, _, others⟩ := Plus.Context.eachRef_eq_ok behind
      -- The new reference is the last one, so the loads of the safepoint leave it.
      have outside : ref ∉ safepoint := by
        intro member
        have old := below ref member
        omega
      refine ⟨ptr, reserved, ⟨idx, ?_⟩, servable, mutator ▸ granted⟩
      rw [others ref outside]
      exact points

/-- The static descriptor of an array type: its address is aligned and not null. -/
structure ArrayType (statics : UInt64 → Descriptor) where
  element : ObjectType
  descriptor : UInt64
  has : (ObjectType.array element descriptor).HasDescriptor statics
  aligned : descriptor &&& typeTypeMask = 0
  nonnull : descriptor ≠ 0

namespace ArrayType

/-- The header, the array header and the elements, over the integers. -/
def neededBytes (array : ArrayType statics) (len : Nat) : Nat :=
  metadataSize + arrayHeaderSize + array.element.sizeOf * len

/-- The bytes that `alloc_array` passes on in a release build. -/
def passedBytes (array : ArrayType statics) (extraBytes len : Nat) : Nat :=
  (array.element.sizeOf * len % 2 ^ 64 + extraBytes) % 2 ^ 64

theorem requested (array : ArrayType statics) (mutator : Mutator Types) (extraBytes len reserved : Nat) :
    release.requestedBytes (Types.typeManager statics) mutator (.typed array.descriptor)
        (array.passedBytes extraBytes len) = .ok reserved ↔
      reserved = (array.neededBytes len + extraBytes) % 2 ^ 64 := by
  have isArray : (statics array.descriptor).isArray = true := by
    rw [array.has.1, Descriptor.isArray_toArray]
  have header : Build.neededBytes (Types.typeManager statics) mutator.types (.typed array.descriptor) =
      some (arrayHeaderSize + metadataSize) := by
    simp [Build.neededBytes, Types.typeManager, Types.getStaticSize, Types.getType_static _ array.aligned,
      array.nonnull, TypeInfo.getStaticSize, isArray, bind, Except.bind]
  have sum : (arrayHeaderSize + metadataSize + array.passedBytes extraBytes len) % 2 ^ 64 =
      (array.neededBytes len + extraBytes) % 2 ^ 64 := by
    simp only [passedBytes, neededBytes]
    omega
  simp only [requestedBytes_release, header, Option.some.injEq, exists_eq_left', sum]

variable {array : ArrayType statics} {extraBytes len : Nat}

theorem allocArray_reserved (array : ArrayType statics) (keeps : WaitCycle.KeepsSpace waitCycle)
    (addressable : context.mutator.mm.Addressable)
    (returned : release.allocArray statics waitCycle safepoint context array.element array.descriptor extraBytes len
      init = .ok (some ref, after)) :
    ∃ ptr reserved, after.getPtr ref = .ok ptr ∧ Servable reserved ∧
      release.Reserved (Types.typeManager statics) (.typed array.descriptor) (array.passedBytes extraBytes len) ptr
        reserved after.mutator := by
  simp only [allocArray, typeIdFrom, bind_eq_ok, assert_eq_ok, decide_eq_true_eq] at returned
  obtain ⟨_, product, _, ⟨_, aligned, same⟩, _, passed, ⟨result, allocated⟩, object, rest⟩ := returned
  cases product
  cases same
  cases passed
  cases result with
  | none => cases rest
  | some named =>
      simp only [bind_eq_ok] at rest
      obtain ⟨ptr, held, rest⟩ := rest
      cases rest
      obtain ⟨other, reserved, points, servable, granted⟩ := allocObject_allocated keeps addressable object
      cases points.getPtr.symm.trans held
      exact ⟨ptr, reserved, points.getPtr, servable, granted⟩

/-- A thread without objects that has the whole address space. -/
def newContext : Plus.Context where
  mutator := newMutator .new
  roots := .new

theorem newContext_returns (array : ArrayType statics) (waitCycle : WaitCycle) (init : Nat → Nat)
    (servable : Servable ((array.neededBytes len + extraBytes) % 2 ^ 64)) :
    ∃ ref after, release.allocArray statics waitCycle [] newContext array.element array.descriptor extraBytes len init =
      .ok (some ref, after) := by
  obtain ⟨ptr, mutator, allocated, _⟩ :=
    allocFast_newMutator servable ((array.requested (newMutator .new) extraBytes len _).mpr rfl)
  let there : Plus.Context := ⟨mutator, ⟨(Inner.new.addPtr ptr).2, [some ⟨some ptr, 0⟩]⟩⟩
  have object : release.allocObject statics waitCycle [] newContext array.descriptor
      (array.passedBytes extraBytes len) = .ok (some 0, there) := by
    simp only [allocObject, contextAllocFast, newContext, allocated]
    rfl
  have typeId : typeIdFrom array.descriptor = .ok array.descriptor := by
    simp [typeIdFrom, array.aligned, bind, Except.bind, assert]
  refine ⟨0, there.writeMemory (writeValue (Function.update mutator.memory (ptr + metadataSize) len)
    (ptr + metadataSize + arrayHeaderSize) (array.element.sizeOf * len) init), ?_⟩
  simp only [allocArray, bind_eq_ok]
  exact ⟨_, rfl, _, typeId, _, rfl, _, object, rfl⟩

/-- Every call that returns an array has reserved its bytes. -/
def Covers (array : ArrayType statics) (extraBytes len : UInt64) : Prop :=
  ∀ (waitCycle : WaitCycle) (safepoint : List Nat) (context after : Plus.Context) (init : Nat → Nat) (ref : Nat),
    WaitCycle.KeepsSpace waitCycle → context.mutator.mm.Addressable →
    release.allocArray statics waitCycle safepoint context array.element array.descriptor extraBytes.toNat len.toNat
      init = .ok (some ref, after) →
    ∃ ptr reserved, after.getPtr ref = .ok ptr ∧
      release.Reserved (Types.typeManager statics) (.typed array.descriptor)
        (array.passedBytes extraBytes.toNat len.toNat) ptr reserved after.mutator ∧
      array.neededBytes len.toNat ≤ reserved

end ArrayType

/-- Every call that returns plain data has reserved its bytes. -/
def PlainCovers (extraBytes size : UInt64) : Prop :=
  ∀ {Types : Type} (manager : TypeManager Types) (waitCycle : Mutator Types → Mutator Types)
    (mutator after : Mutator Types) (ptr : Nat),
    (∀ mutator, mutator.mm.Addressable → (waitCycle mutator).mm.Addressable) → mutator.mm.Addressable →
    release.allocFast manager mutator (.plainOldData size) extraBytes.toNat = .ok (some ptr, after) ∨
      release.allocSlow manager waitCycle mutator (.plainOldData size) extraBytes.toNat = .ok (some ptr, after) →
    ∃ reserved, release.Reserved manager (.plainOldData size) extraBytes.toNat ptr reserved after ∧
      metadataSize + size.toNat ≤ reserved

/-- The sum does not wrap, or no table can serve what is left of it. -/
def Sound (needed : Nat) (extraBytes : UInt64) : Prop :=
  needed + extraBytes.toNat < 2 ^ 64 ∨ ¬ Servable ((needed + extraBytes.toNat) % 2 ^ 64)

theorem plainCovers_iff (extraBytes size : UInt64) :
    PlainCovers extraBytes size ↔ Sound (metadataSize + size.toNat) extraBytes := by
  have requested {Types : Type} (manager : TypeManager Types) (mutator : Mutator Types) (reserved : Nat) :
      release.requestedBytes manager mutator (.plainOldData size) extraBytes.toNat = .ok reserved ↔
        reserved = (metadataSize + size.toNat + extraBytes.toNat) % 2 ^ 64 := by
    simp only [requestedBytes_release, neededBytes_plain, Option.some.injEq, exists_eq_left',
      Nat.add_comm size.toNat]
  constructor
  · intro covers
    by_cases servable : Servable ((metadataSize + size.toNat + extraBytes.toNat) % 2 ^ 64)
    · left
      let manager := Types.typeManager fun _ => .new [] 0
      obtain ⟨ptr, after, returned, _⟩ :=
        allocFast_newMutator servable ((requested manager (newMutator .new) _).mpr rfl)
      obtain ⟨reserved, ⟨before, _, asked, _⟩, covered⟩ := covers manager id _ after ptr (fun _ kept => kept)
        Mm.Context.wholeSpace_addressable (.inl returned)
      rw [(requested manager before reserved).mp asked] at covered
      exact (needed_le_wrapped extraBytes.toNat_lt).mp covered
    · exact .inr servable
  · intro sound Types manager waitCycle mutator after ptr keeps addressable returned
    have granted : ∃ reserved, release.Reserved manager (.plainOldData size) extraBytes.toNat ptr reserved after ∧
        Servable reserved := by
      rcases returned with fast | slow
      · exact allocFast_reserved addressable fast
      · exact retryAlloc_reserved keeps addressable slow
    obtain ⟨reserved, ⟨before, page, asked, rest⟩, servable⟩ := granted
    refine ⟨reserved, ⟨before, page, asked, rest⟩, ?_⟩
    have same := (requested manager before reserved).mp asked
    rw [same] at servable ⊢
    rcases sound with small | unserved
    · exact (needed_le_wrapped extraBytes.toNat_lt).mpr small
    · exact absurd servable unserved

theorem ArrayType.sound_iff (array : ArrayType statics) (extraBytes len : UInt64) :
    array.Covers extraBytes len ↔ Sound (array.neededBytes len.toNat) extraBytes := by
  constructor
  · intro covers
    by_cases servable : Servable ((array.neededBytes len.toNat + extraBytes.toNat) % 2 ^ 64)
    · left
      obtain ⟨ref, after, returned⟩ := ArrayType.newContext_returns array ⟨id, []⟩ (fun _ => 0) servable
      obtain ⟨ptr, reserved, _, ⟨before, _, asked, _⟩, covered⟩ := covers ⟨id, []⟩ [] _ after _ ref
        (fun _ kept => kept) Mm.Context.wholeSpace_addressable returned
      rw [(array.requested before _ _ reserved).mp asked] at covered
      exact (needed_le_wrapped extraBytes.toNat_lt).mp covered
    · exact .inr servable
  · intro sound waitCycle safepoint context after init ref keeps addressable returned
    obtain ⟨ptr, reserved, held, servable, ⟨before, page, asked, rest⟩⟩ :=
      ArrayType.allocArray_reserved array keeps addressable returned
    refine ⟨ptr, reserved, held, ⟨before, page, asked, rest⟩, ?_⟩
    have same := (array.requested before _ _ reserved).mp asked
    rw [same] at servable ⊢
    rcases sound with small | unserved
    · exact (needed_le_wrapped extraBytes.toNat_lt).mpr small
    · exact absurd servable unserved

/-- A release build reserves at least the bytes of every object exactly where the sum that
the calls build stays below `2 ^ 64`, or what is left of it is no size that is ever served. -/
theorem reserved_covers_iff (statics : UInt64 → Descriptor) :
    (∀ extraBytes size, PlainCovers extraBytes size ↔ Sound (metadataSize + size.toNat) extraBytes) ∧
    ∀ (array : ArrayType statics) (extraBytes len : UInt64),
      array.Covers extraBytes len ↔ Sound (array.neededBytes len.toNat) extraBytes :=
  ⟨plainCovers_iff, ArrayType.sound_iff⟩

def wordArray : ArrayType wordStatics where
  element := .declared 8 8
  descriptor := 16
  has := ⟨rfl, rfl, rfl⟩
  aligned := rfl
  nonnull := by decide

/-- An array of one word, with extra bytes that make the sum `2 ^ 64`, gets the 24 bytes of its
headers; plain data of all but 16 bytes of the address space gets those of its header. -/
theorem array_undersized :
    (∃ after, release.allocArray wordStatics ⟨id, []⟩ [] freshContext (.declared 8 8) 16 (2 ^ 64 - 8) 1 (fun _ => 7) =
        .ok (some 0, after) ∧
      ∃ ptr, after.getPtr 0 = .ok ptr ∧
        release.Reserved (Types.typeManager wordStatics) (.typed 16) 0 ptr 24 after.mutator) ∧
    wordArray.neededBytes 1 = 32 ∧ ¬ wordArray.Covers (.ofNat (2 ^ 64 - 8)) 1 ∧
    ¬ PlainCovers 16 (.ofNat (2 ^ 64 - 16)) := by
  have addressable : freshContext.mutator.mm.Addressable := by
    apply Mm.Context.new_addressable (by decide)
    rw [basePageSize_eq]
    decide
  refine ⟨?_, by decide, ?_, ?_⟩
  · have goes : (release.allocArray wordStatics ⟨id, []⟩ [] freshContext (.declared 8 8) 16 (2 ^ 64 - 8) 1
        (fun _ => 7)).map Prod.fst = .ok (some 0) := by
      decide +kernel
    obtain ⟨⟨result, after⟩, returned, rfl⟩ := map_eq_ok.mp goes
    obtain ⟨ptr, reserved, held, _, ⟨before, page, asked, rest⟩⟩ :=
      ArrayType.allocArray_reserved wordArray (fun _ kept => kept) addressable returned
    have bytes : reserved = 24 := (wordArray.requested before (2 ^ 64 - 8) 1 reserved).mp asked
    rw [bytes] at asked rest
    exact ⟨after, returned, ptr, held, before, page, asked, rest⟩
  · rw [ArrayType.sound_iff, Sound]
    decide +kernel
  · rw [plainCovers_iff, Sound]
    decide +kernel

end UwUGC.Build
