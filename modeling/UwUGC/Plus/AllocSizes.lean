import UwUGC.Plus.AllocProperties
import UwUGC.Plus.TypesProperties

/-! The size that an object was allocated with and the size that the marker finds. The
first counts the extra bytes, the second does not. -/

set_option autoImplicit false

namespace UwUGC.Plus

open State.Mutator

variable {statics : UInt64 → Descriptor} {waitCycle : WaitCycle} {context after : Context}
  {extraBytes ref ptr reserved : Nat} {safepoint : List Nat} {init : Nat → Nat}

theorem and_complement {typeId : UInt64} (tag : typeId &&& typeTypeMask = 0) :
    typeId &&& ~~~typeTypeMask = typeId := by
  have split : typeId &&& (typeTypeMask ||| ~~~typeTypeMask) =
      (typeId &&& typeTypeMask) ||| (typeId &&& ~~~typeTypeMask) := by
    apply UInt64.toBitVec_inj.mp
    exact BitVec.and_or_distrib_left
  rw [tag, UInt64.zero_or] at split
  rw [← split]
  exact UInt64.and_neg_one

namespace Types

/-- An aligned id is the address of a descriptor, whatever the table says. -/
theorem getType_static (types : Types) {typeId : UInt64} (tag : typeId &&& typeTypeMask = 0) :
    types.getType statics typeId =
      if typeId = 0 then .error .unwrapNone else .ok (some (.staticallyKnown (statics typeId))) := by
  simp only [getType, tag, and_complement tag, if_true]

theorem getStaticSize_static {types : Types} {typeId : UInt64} {size : Nat} (tag : typeId &&& typeTypeMask = 0)
    (known : types.getStaticSize statics typeId = .ok (some size)) :
    typeId ≠ 0 ∧ size = (TypeInfo.staticallyKnown (statics typeId)).getStaticSize := by
  simp only [getStaticSize, getType_static types tag, bind_eq_ok] at known
  obtain ⟨info, decoded, sized⟩ := known
  split at decoded
  · cases decoded
  · next present =>
      cases decoded
      cases sized
      exact ⟨present, rfl⟩

theorem getSize_static {types : Types} {memory : Memory} {obj : Nat} {typeId : UInt64}
    (tag : typeId &&& typeTypeMask = 0) (present : typeId ≠ 0)
    (payload : (memory.metadata obj).payload = .notPlainOldData typeId) :
    (typeManager statics).getSize types memory obj =
      .ok ((TypeInfo.staticallyKnown (statics typeId)).getDynamicSize (memory.data obj) + metadataSize) := by
  have decoded : types.getType statics typeId = .ok (some (.staticallyKnown (statics typeId))) := by
    rw [getType_static types tag, if_neg present]
  simp [TypeManager.getSize, payload, typeManager, getDynamicSize, decoded, bind, Except.bind]

end Types

/-- The size of one element, however deep the arrays are nested. -/
def ObjectType.elementSize : ObjectType → Nat
  | declared size _ => size
  | array element _ => element.elementSize

theorem ObjectType.HasDescriptor.size {ty : ObjectType} (has : ty.HasDescriptor statics) :
    (statics ty.descriptor).size = ty.elementSize := by
  induction ty with
  | declared size descriptor => exact has.1
  | array element descriptor ih =>
      obtain ⟨same, has⟩ := has
      rw [ObjectType.descriptor, same, Descriptor.size_toArray, ih has, ObjectType.elementSize]

theorem writeValue_outside {memory : Memory} {dest size address : Nat} {value : Nat → Nat} (before : address < dest) :
    writeValue memory dest size value address = memory address := by
  rw [writeValue, if_neg]
  simp only [Span.Contains]
  omega

theorem writeValue_first {memory : Memory} {dest size : Nat} {value : Nat → Nat} (filled : 0 < size) :
    writeValue memory dest size value dest = value 0 := by
  rw [writeValue, if_pos, Nat.sub_self]
  simp only [Span.Contains, Span.stop]
  omega

/-- An object as the allocation left it, written behind its header. -/
structure Written (statics : UInt64 → Descriptor) (typeId : UInt64) (extraBytes ptr reserved : Nat)
    (after : Context) : Prop where
  tag : typeId &&& typeTypeMask = 0
  granted : ∃ mutator, Granted (Types.typeManager statics) (.typed typeId) extraBytes ptr reserved mutator ∧
    after.mutator.types = mutator.types ∧ after.mutator.mm = mutator.mm ∧
    ∀ address < ptr + metadataSize, after.mutator.memory address = mutator.memory address

theorem Written.sizes {typeId : UInt64} (written : Written statics typeId extraBytes ptr reserved after) :
    reserved = (TypeInfo.staticallyKnown (statics typeId)).getStaticSize + metadataSize + extraBytes ∧
    (Types.typeManager statics).getSize after.mutator.types after.mutator.memory ptr =
      .ok ((TypeInfo.staticallyKnown (statics typeId)).getDynamicSize (after.mutator.memory.data ptr) +
        metadataSize) := by
  obtain ⟨tag, mutator, granted, _, _, below⟩ := written
  obtain ⟨size, known, requested⟩ := granted.typed
  obtain ⟨present, rfl⟩ := Types.getStaticSize_static tag known
  refine ⟨requested, Types.getSize_static tag present ?_⟩
  rw [Memory.metadata_congr (below ptr (by simp [metadataSize])) (below (ptr + 8) (by simp [metadataSize])),
    granted.payload]
  rfl

theorem alloc_written {ty : ObjectType}
    (returned : alloc statics waitCycle safepoint context ty extraBytes init = .ok (some ref, after)) :
    ∃ ptr reserved, after.getPtr ref = .ok ptr ∧ Written statics ty.descriptor extraBytes ptr reserved after ∧
      (0 < ty.sizeOf → after.mutator.memory.data ptr 0 = init 0) := by
  simp only [alloc, typeIdFrom, bind_eq_ok, assert_eq_ok, decide_eq_true_eq] at returned
  obtain ⟨_, ⟨_, tag, same⟩, ⟨result, allocated⟩, object, rest⟩ := returned
  cases same
  cases result with
  | none => cases rest
  | some named =>
      simp only [bind_eq_ok] at rest
      obtain ⟨ptr, held, rest⟩ := rest
      cases rest
      obtain ⟨other, reserved, granted, points⟩ := Context.allocObject_allocated object
      cases points.getPtr.symm.trans held
      refine ⟨ptr, reserved, points.getPtr, ⟨tag, allocated.mutator, granted, rfl, rfl, ?_⟩, ?_⟩
      · intro address below
        exact writeValue_outside below
      · intro filled
        exact writeValue_first filled

theorem allocArray_written {element : ObjectType} {descriptor : UInt64} {len : Nat}
    (returned : allocArray statics waitCycle safepoint context element descriptor extraBytes len init =
      .ok (some ref, after)) :
    ∃ ptr reserved, after.getPtr ref = .ok ptr ∧
      Written statics descriptor (element.sizeOf * len + extraBytes) ptr reserved after ∧
      after.mutator.memory.data ptr 0 = len := by
  simp only [allocArray, typeIdFrom, bind_eq_ok, assert_eq_ok, decide_eq_true_eq, checkedMul_eq_ok,
    checkedAdd_eq_ok] at returned
  obtain ⟨_, ⟨_, rfl⟩, _, ⟨_, tag, same⟩, _, ⟨_, rfl⟩, ⟨result, allocated⟩, object, rest⟩ := returned
  cases same
  cases result with
  | none => cases rest
  | some named =>
      simp only [bind_eq_ok] at rest
      obtain ⟨ptr, held, rest⟩ := rest
      cases rest
      obtain ⟨other, reserved, granted, points⟩ := Context.allocObject_allocated object
      cases points.getPtr.symm.trans held
      refine ⟨ptr, reserved, points.getPtr, ⟨tag, allocated.mutator, granted, rfl, rfl, ?_⟩, ?_⟩
      · intro address below
        have outside : address < ptr + metadataSize + arrayHeaderSize :=
          Nat.lt_of_lt_of_le below (Nat.le_add_right _ _)
        exact (writeValue_outside outside).trans (Function.update_of_ne (Nat.ne_of_lt below) _ _)
      · have outside : ptr + metadataSize + 0 < ptr + metadataSize + arrayHeaderSize := by
          simp [arrayHeaderSize]
        exact (writeValue_outside outside).trans (Function.update_self ..)

/-- The extra bytes with which a value of the type is as long as the marker finds it. -/
def ObjectType.exactExtra (first : Nat) : ObjectType → Nat
  | declared _ _ => 0
  | array element _ => element.elementSize * first

theorem value_size_iff {ty : ObjectType} (has : ty.HasDescriptor statics)
    (returned : alloc statics waitCycle safepoint context ty extraBytes init = .ok (some ref, after)) :
    ∃ ptr reserved, after.getPtr ref = .ok ptr ∧ Written statics ty.descriptor extraBytes ptr reserved after ∧
      ((Types.typeManager statics).getSize after.mutator.types after.mutator.memory ptr = .ok reserved ↔
        extraBytes = ty.exactExtra (init 0)) := by
  obtain ⟨ptr, reserved, held, written, first⟩ := alloc_written returned
  refine ⟨ptr, reserved, held, written, ?_⟩
  obtain ⟨requested, sized⟩ := written.sizes
  rw [sized, requested]
  cases ty with
  | declared size descriptor =>
      simp [TypeInfo.getDynamicSize, TypeInfo.getStaticSize, ObjectType.descriptor, has.2, ObjectType.exactExtra]
  | array element descriptor =>
      have elements := has.2.size
      have same := has.1
      have header : after.mutator.memory.data ptr 0 = init 0 := first (by simp [ObjectType.sizeOf, arrayHeaderSize])
      have top : (ObjectType.array element descriptor).descriptor = descriptor := rfl
      simp only [top, TypeInfo.getDynamicSize, TypeInfo.getStaticSize, same,
        Descriptor.isArray_toArray, Descriptor.size_toArray, elements, header, if_true, ObjectType.exactExtra,
        Except.ok.injEq]
      omega

theorem array_size_iff {element : ObjectType} {descriptor : UInt64} {len : Nat}
    (has : (ObjectType.array element descriptor).HasDescriptor statics)
    (returned : allocArray statics waitCycle safepoint context element descriptor extraBytes len init =
      .ok (some ref, after)) :
    ∃ ptr reserved, after.getPtr ref = .ok ptr ∧
      Written statics descriptor (element.sizeOf * len + extraBytes) ptr reserved after ∧
      ((Types.typeManager statics).getSize after.mutator.types after.mutator.memory ptr = .ok reserved ↔
        element.sizeOf * len + extraBytes = element.elementSize * len) := by
  obtain ⟨ptr, reserved, held, written, header⟩ := allocArray_written returned
  refine ⟨ptr, reserved, held, written, ?_⟩
  obtain ⟨requested, sized⟩ := written.sizes
  have elements := has.2.size
  have same := has.1
  simp only [sized, requested, TypeInfo.getDynamicSize, TypeInfo.getStaticSize, same, Descriptor.isArray_toArray,
    Descriptor.size_toArray, elements, header, if_true, Except.ok.injEq]
  omega

theorem plain_size_iff {Types : Type} {manager : TypeManager Types} {mutator after : State.Mutator Types}
    {wait : State.Mutator Types → State.Mutator Types} {size : UInt64}
    (returned : mutator.allocFast manager (.plainOldData size) extraBytes = .ok (some ptr, after) ∨
      mutator.allocSlow manager wait (.plainOldData size) extraBytes = .ok (some ptr, after)) :
    ∃ reserved, Granted manager (.plainOldData size) extraBytes ptr reserved after ∧
      (manager.getSize after.types after.memory ptr = .ok reserved ↔ extraBytes = 0) := by
  have granted : ∃ reserved, Granted manager (.plainOldData size) extraBytes ptr reserved after := by
    rcases returned with fast | slow
    · exact allocFast_granted fast
    · exact allocSlow_granted slow
  obtain ⟨reserved, granted⟩ := granted
  refine ⟨reserved, granted, ?_⟩
  obtain ⟨sized, rfl⟩ := granted.plain
  rw [sized, Except.ok.injEq]
  omega

/-- The marker finds the size that was reserved exactly when no extra bytes were asked for. An
array as the type itself, or as the element, is one more case: its elements are not in its size. -/
theorem allocated_size_iff (statics : UInt64 → Descriptor) (waitCycle : WaitCycle) (safepoint : List Nat) :
    (∀ {Managed : Type} (manager : TypeManager Managed) (mutator after : State.Mutator Managed) wait
        (size : UInt64) extraBytes ptr,
      mutator.allocFast manager (.plainOldData size) extraBytes = .ok (some ptr, after) ∨
        mutator.allocSlow manager wait (.plainOldData size) extraBytes = .ok (some ptr, after) →
      ∃ reserved, Granted manager (.plainOldData size) extraBytes ptr reserved after ∧
        (manager.getSize after.types after.memory ptr = .ok reserved ↔ extraBytes = 0)) ∧
    (∀ (context after : Context) (ty : ObjectType) extraBytes init ref, ty.HasDescriptor statics →
      alloc statics waitCycle safepoint context ty extraBytes init = .ok (some ref, after) →
      ∃ ptr reserved, after.getPtr ref = .ok ptr ∧ Written statics ty.descriptor extraBytes ptr reserved after ∧
        ((Types.typeManager statics).getSize after.mutator.types after.mutator.memory ptr = .ok reserved ↔
          extraBytes = ty.exactExtra (init 0))) ∧
    ∀ (context after : Context) (element : ObjectType) descriptor extraBytes len init ref,
      (ObjectType.array element descriptor).HasDescriptor statics →
      allocArray statics waitCycle safepoint context element descriptor extraBytes len init = .ok (some ref, after) →
      ∃ ptr reserved, after.getPtr ref = .ok ptr ∧
        Written statics descriptor (element.sizeOf * len + extraBytes) ptr reserved after ∧
        ((Types.typeManager statics).getSize after.mutator.types after.mutator.memory ptr = .ok reserved ↔
          element.sizeOf * len + extraBytes = element.elementSize * len) :=
  ⟨fun _ _ _ _ _ _ _ returned => plain_size_iff returned,
    fun _ _ _ _ _ _ has returned => value_size_iff has returned,
    fun _ _ _ _ _ _ _ _ has returned => array_size_iff has returned⟩

/-- A thread without objects, over a space of four base pages. -/
def freshContext : Context where
  mutator := { mmContext := .new, mm := .new 4096 4, types := .new, markTrueBit := .bit0, memory := fun _ => 0 }
  roots := .new

/-- Eight bytes of plain data with eight extra bytes: 32 bytes are reserved and 24 are found. -/
theorem extra_bytes_not_counted :
    ∃ after, freshContext.mutator.allocFast (Types.typeManager fun _ => .new [] 8) (.plainOldData 8) 8 =
        .ok (some 4096, after) ∧
      freshContext.mutator.requestedBytes (Types.typeManager fun _ => .new [] 8) (.plainOldData 8) 8 = .ok 32 ∧
      (Types.typeManager fun _ => .new [] 8).getSize after.types after.memory 4096 = .ok 24 := by
  have goes : (freshContext.mutator.allocFast (Types.typeManager fun _ => .new [] 8) (.plainOldData 8) 8).map
      (fun result => (result.1, (Types.typeManager fun _ => .new [] 8).getSize result.2.types result.2.memory 4096)) =
      .ok (some 4096, .ok 24) := by
    decide +kernel
  obtain ⟨⟨result, after⟩, returned, same⟩ := map_eq_ok.mp goes
  simp only [Prod.mk.injEq] at same
  obtain ⟨rfl, found⟩ := same
  exact ⟨after, returned, rfl, found⟩

/-- The descriptor of a word at address 8 and that of an array of words at address 16. -/
def wordStatics (address : UInt64) : Descriptor :=
  if address = 16 then (Descriptor.new [] 8).toArray else .new [] 8

/-- A word of plain data, a typed word and an array of three, without extra bytes. -/
theorem allocated_size_exact :
    (∃ after reserved, freshContext.mutator.allocFast (Types.typeManager wordStatics) (.plainOldData 8) 0 =
        .ok (some 4096, after) ∧
      (Types.typeManager wordStatics).getSize after.types after.memory 4096 = .ok reserved) ∧
    (∃ after ref ptr reserved, alloc wordStatics ⟨id, []⟩ [] freshContext (.declared 8 8) 0 (fun _ => 7) =
        .ok (some ref, after) ∧ Written wordStatics 8 0 ptr reserved after ∧
      (Types.typeManager wordStatics).getSize after.mutator.types after.mutator.memory ptr = .ok reserved) ∧
    ∃ after ref ptr reserved, allocArray wordStatics ⟨id, []⟩ [] freshContext (.declared 8 8) 16 0 3 (fun _ => 7) =
        .ok (some ref, after) ∧ Written wordStatics 16 24 ptr reserved after ∧
      (Types.typeManager wordStatics).getSize after.mutator.types after.mutator.memory ptr = .ok reserved := by
  obtain ⟨plain, value, array⟩ := allocated_size_iff wordStatics ⟨id, []⟩ []
  refine ⟨?_, ?_, ?_⟩
  · have goes : (freshContext.mutator.allocFast (Types.typeManager wordStatics) (.plainOldData 8) 0).map Prod.fst =
        .ok (some 4096) := by
      decide +kernel
    obtain ⟨⟨result, after⟩, returned, rfl⟩ := map_eq_ok.mp goes
    obtain ⟨reserved, _, exact⟩ := plain _ _ after id 8 0 4096 (.inl returned)
    exact ⟨after, reserved, returned, exact.mpr rfl⟩
  · have goes : (alloc wordStatics ⟨id, []⟩ [] freshContext (.declared 8 8) 0 (fun _ => 7)).map Prod.fst =
        .ok (some 0) := by
      decide +kernel
    obtain ⟨⟨result, after⟩, returned, rfl⟩ := map_eq_ok.mp goes
    obtain ⟨ptr, reserved, _, written, exact⟩ := value freshContext after (.declared 8 8) 0 _ 0 ⟨rfl, rfl⟩ returned
    exact ⟨after, 0, ptr, reserved, returned, written, exact.mpr rfl⟩
  · have goes : (allocArray wordStatics ⟨id, []⟩ [] freshContext (.declared 8 8) 16 0 3 (fun _ => 7)).map Prod.fst =
        .ok (some 0) := by
      decide +kernel
    obtain ⟨⟨result, after⟩, returned, rfl⟩ := map_eq_ok.mp goes
    obtain ⟨ptr, reserved, _, written, exact⟩ :=
      array freshContext after (.declared 8 8) 16 0 3 _ 0 ⟨rfl, rfl, rfl⟩ returned
    exact ⟨after, 0, ptr, reserved, returned, written, exact.mpr rfl⟩

end UwUGC.Plus
