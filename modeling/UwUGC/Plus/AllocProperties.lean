import UwUGC.Plus.Alloc
import UwUGC.State.ContextProperties

/-! The size that an object was allocated with and the size that the marker finds. The
first counts the extra bytes, the second does not. -/

set_option autoImplicit false

namespace UwUGC.Plus

open State.Mutator

namespace Context

variable {statics : UInt64 → Descriptor} {waitCycle : WaitCycle} {context after : Context} {typeId : UInt64}
  {extraBytes ref ptr : Nat} {safepoint : List Nat}

/-- A live reference holds the pointer itself. -/
def Points (context : Context) (ref ptr : Nat) : Prop :=
  ∃ idx, context.roots.refs[ref]? = some (some ⟨some ptr, idx⟩)

theorem Points.getPtr (points : context.Points ref ptr) : context.getPtr ref = .ok ptr := by
  obtain ⟨idx, found⟩ := points
  simp [Context.getPtr, found, RootRefRaw.getPtr, bind, Except.bind]

theorem addPtr_raw {inner next : Inner} {raw : RootRefRaw} (returned : inner.addPtr ptr = (.ok raw, next)) :
    raw.ptr = some ptr := by
  unfold Inner.addPtr at returned
  split at returned
  · cases returned
    rfl
  · split at returned
    · cases returned
    · cases returned
    · cases returned
      rfl

theorem addPtr_eq_ok (returned : context.addPtr ptr = .ok (ref, after)) :
    ref = context.roots.refs.length ∧ after.mutator = context.mutator ∧ after.Points ref ptr := by
  unfold addPtr at returned
  split at returned
  · next raw inner added =>
      cases returned
      have held := addPtr_raw added
      refine ⟨rfl, rfl, raw.idx, ?_⟩
      obtain ⟨_, idx⟩ := raw
      simp only at held
      subst held
      simp
  · cases returned

theorem addResult_eq_ok {result : Option Nat} (returned : context.addResult result = .ok (some ref, after)) :
    ∃ ptr, result = some ptr ∧ ref = context.roots.refs.length ∧ after.mutator = context.mutator ∧
      after.Points ref ptr := by
  cases result with
  | none => cases returned
  | some ptr =>
      simp only [addResult, bind_eq_ok] at returned
      obtain ⟨⟨added, behind⟩, pushed, rest⟩ := returned
      cases rest
      exact ⟨ptr, rfl, addPtr_eq_ok pushed⟩

def Allocated (statics : UInt64 → Descriptor) (typeId : UInt64) (extraBytes ref ptr reserved : Nat)
    (after : Context) : Prop :=
  Granted (Types.typeManager statics) (.typed typeId) extraBytes ptr reserved after.mutator ∧ after.Points ref ptr

theorem allocFast_allocated (returned : context.allocFast statics typeId extraBytes = .ok (some ref, after)) :
    ∃ ptr reserved, Allocated statics typeId extraBytes ref ptr reserved after := by
  simp only [allocFast, bind_eq_ok] at returned
  obtain ⟨⟨result, mutator⟩, allocated, added⟩ := returned
  obtain ⟨ptr, rfl, _, same, points⟩ := addResult_eq_ok added
  obtain ⟨reserved, granted⟩ := allocFast_granted allocated
  exact ⟨ptr, reserved, same ▸ granted, points⟩

theorem allocSlow_allocated
    (returned : context.allocSlow statics waitCycle typeId extraBytes = .ok (some ref, after)) :
    ref = context.roots.refs.length ∧ ∃ ptr reserved, Allocated statics typeId extraBytes ref ptr reserved after := by
  simp only [allocSlow, bind_eq_ok] at returned
  obtain ⟨_, _, ⟨result, mutator⟩, allocated, added⟩ := returned
  obtain ⟨ptr, rfl, last, same, points⟩ := addResult_eq_ok added
  obtain ⟨reserved, granted⟩ := allocSlow_granted allocated
  exact ⟨last, ptr, reserved, same ▸ granted, points⟩

theorem eachRef_eq_ok {operation : RootRefRaw → Inner → Except Panic Unit × RootRefRaw × Inner}
    (returned : context.eachRef operation safepoint = .ok after) :
    after.mutator = context.mutator ∧ after.roots.refs.length = context.roots.refs.length ∧
    (∀ ref ∈ safepoint, ref < context.roots.refs.length) ∧
    ∀ other ∉ safepoint, after.roots.refs[other]? = context.roots.refs[other]? := by
  induction safepoint generalizing context with
  | nil =>
      cases returned
      simp
  | cons ref rest ih =>
      simp only [eachRef, bind_eq_ok, unwrap_eq_ok, Option.join_eq_some_iff] at returned
      obtain ⟨raw, found, returned⟩ := returned
      split at returned
      · obtain ⟨mutator, length, below, others⟩ := ih returned
        simp only [List.length_set] at length below
        refine ⟨mutator, length, ?_, ?_⟩
        · intro member inside
          rcases List.mem_cons.mp inside with here | behind
          · rw [here]
            exact (List.getElem?_eq_some_iff.mp found).1
          · exact below member behind
        · intro other outside
          rw [List.mem_cons, not_or] at outside
          rw [others other outside.2, List.getElem?_set_ne (Ne.symm outside.1)]
      · cases returned

theorem allocObject_allocated
    (returned : context.allocObject statics waitCycle safepoint typeId extraBytes = .ok (some ref, after)) :
    ∃ ptr reserved, Allocated statics typeId extraBytes ref ptr reserved after := by
  simp only [allocObject, bind_eq_ok] at returned
  obtain ⟨⟨result, fast⟩, tried, rest⟩ := returned
  cases result with
  | some _ =>
      cases rest
      exact allocFast_allocated tried
  | none =>
      simp only [bind_eq_ok] at rest
      obtain ⟨stored, before, ⟨slowResult, slow⟩, allocated, loaded, behind, rest⟩ := rest
      cases rest
      obtain ⟨last, ptr, reserved, granted, idx, points⟩ := allocSlow_allocated allocated
      obtain ⟨_, length, below, _⟩ := eachRef_eq_ok before
      obtain ⟨mutator, _, _, others⟩ := eachRef_eq_ok behind
      have outside : ref ∉ safepoint := by
        intro member
        have := below ref member
        omega
      refine ⟨ptr, reserved, mutator ▸ granted, idx, ?_⟩
      rw [others ref outside]
      exact points

end Context

end UwUGC.Plus
