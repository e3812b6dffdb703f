import UwUGC.State.Context

/-! What an allocation that succeeds has done: it asked for some bytes, got them, and wrote
a header there. -/

set_option autoImplicit false

namespace UwUGC.State.Mutator

variable {Types : Type} {manager : TypeManager Types} {mutator after : Mutator Types} {ty : AllocType}
  {extraBytes ptr reserved : Nat}

/-- The bytes at `ptr` were reserved from the page allocator for this request, and hold a
fresh object. -/
def Granted (manager : TypeManager Types) (ty : AllocType) (extraBytes ptr reserved : Nat)
    (after : Mutator Types) : Prop :=
  ∃ (before : Mutator Types) (page : Nat), before.requestedBytes manager ty extraBytes = .ok reserved ∧
    before.mmContext.allocFromPageTable before.mm reserved =
      .ok (some (ptr, page), after.mmContext, after.mm) ∧
    after.types = before.types ∧ after.memory = before.initObject ptr ty.toObjKind

theorem allocFast_granted (returned : mutator.allocFast manager ty extraBytes = .ok (some ptr, after)) :
    ∃ reserved, Granted manager ty extraBytes ptr reserved after := by
  simp only [allocFast, bind_eq_ok] at returned
  obtain ⟨reserved, requested, ⟨result, mmContext, mm⟩, allocated, rest⟩ := returned
  cases result with
  | none => cases rest
  | some place =>
      cases rest
      exact ⟨reserved, mutator, place.2, requested, allocated, rfl, rfl⟩

theorem retryAlloc_granted {waitCycle : Mutator Types → Mutator Types} {retries : Nat}
    (returned : retryAlloc manager waitCycle ty extraBytes retries mutator = .ok (some ptr, after)) :
    ∃ reserved, Granted manager ty extraBytes ptr reserved after := by
  induction retries generalizing mutator with
  | zero => cases returned
  | succ retries ih =>
      simp only [retryAlloc, bind_eq_ok] at returned
      obtain ⟨⟨result, tried⟩, allocated, rest⟩ := returned
      cases result with
      | none => exact ih rest
      | some _ =>
          cases rest
          exact allocFast_granted allocated

theorem allocSlow_granted {waitCycle : Mutator Types → Mutator Types}
    (returned : mutator.allocSlow manager waitCycle ty extraBytes = .ok (some ptr, after)) :
    ∃ reserved, Granted manager ty extraBytes ptr reserved after :=
  retryAlloc_granted returned

theorem Granted.payload (granted : Granted manager ty extraBytes ptr reserved after) :
    (after.memory.metadata ptr).payload = ty.toObjKind := by
  obtain ⟨before, _, _, _, _, memory⟩ := granted
  rw [memory, initObject, Memory.metadata_writeHeader]

theorem Granted.plain {size : UInt64} (granted : Granted manager (.plainOldData size) extraBytes ptr reserved after) :
    manager.getSize after.types after.memory ptr = .ok (size.toNat + metadataSize) ∧
    reserved = size.toNat + metadataSize + extraBytes := by
  have payload := granted.payload
  obtain ⟨before, _, requested, _⟩ := granted
  simp only [requestedBytes, getSizeOfAlloc, bind_eq_ok, checkedAdd_eq_ok] at requested
  obtain ⟨_, ⟨_, read, _, rfl⟩, _, rfl⟩ := requested
  cases read
  refine ⟨?_, rfl⟩
  simp [TypeManager.getSize, payload, AllocType.toObjKind]

theorem Granted.typed {typeId : UInt64} (granted : Granted manager (.typed typeId) extraBytes ptr reserved after) :
    ∃ size, manager.getStaticSize after.types typeId = .ok (some size) ∧
      reserved = size + metadataSize + extraBytes := by
  obtain ⟨before, _, requested, _, types, _⟩ := granted
  simp only [requestedBytes, getSizeOfAlloc, bind_eq_ok, checkedAdd_eq_ok, unwrap_eq_ok] at requested
  obtain ⟨_, ⟨_, known, size, rfl, _, rfl⟩, _, rfl⟩ := requested
  exact ⟨size, types ▸ known, rfl⟩

end UwUGC.State.Mutator
