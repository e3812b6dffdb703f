import UwUGC.Mm.AddressSpace
import UwUGC.State.ContextProperties

/-! The allocations of a mutator in a debug build, whose arithmetic is checked, and in a
release build, whose arithmetic wraps. -/

set_option autoImplicit false

namespace UwUGC

namespace Build

open State

variable {Types : Type} (build : Build)

def getSizeOfAlloc (manager : TypeManager Types) (mutator : Mutator Types) (ty : AllocType) : Except Panic Nat := do
  let size ← match ty with
    | .plainOldData size => .ok size.toNat
    | .typed typeId => do unwrap (← manager.getStaticSize mutator.types typeId)
  build.add size metadataSize

def requestedBytes (manager : TypeManager Types) (mutator : Mutator Types) (ty : AllocType) (extraBytes : Nat) :
    Except Panic Nat := do
  build.add (← build.getSizeOfAlloc manager mutator ty) extraBytes

def allocFast (manager : TypeManager Types) (mutator : Mutator Types) (ty : AllocType) (extraBytes : Nat) :
    Except Panic (Option Nat × Mutator Types) := do
  let kind := ty.toObjKind
  let size ← build.requestedBytes manager mutator ty extraBytes
  let (result, mmContext, mm) ← mutator.mmContext.allocFromPageTable mutator.mm size
  match result with
  | some (ptr, _) => .ok (some ptr, { mutator with mmContext, mm, memory := mutator.initObject ptr kind })
  | none => .ok (none, { mutator with mmContext, mm })

def retryAlloc (manager : TypeManager Types) (waitCycle : Mutator Types → Mutator Types) (ty : AllocType)
    (extraBytes : Nat) : Nat → Mutator Types → Except Panic (Option Nat × Mutator Types)
  | 0, mutator => .ok (none, mutator)
  | retries + 1, mutator => do
      let (result, mutator) ← build.allocFast manager mutator ty extraBytes
      match result with
      | some ptr => .ok (some ptr, mutator)
      | none => retryAlloc manager waitCycle ty extraBytes retries (waitCycle mutator)

def allocSlow (manager : TypeManager Types) (waitCycle : Mutator Types → Mutator Types) (mutator : Mutator Types)
    (ty : AllocType) (extraBytes : Nat) : Except Panic (Option Nat × Mutator Types) :=
  build.retryAlloc manager waitCycle ty extraBytes 3 mutator

theorem allocFast_debug (manager : TypeManager Types) (mutator : Mutator Types) (ty : AllocType) (extraBytes : Nat) :
    debug.allocFast manager mutator ty extraBytes = mutator.allocFast manager ty extraBytes := rfl

theorem allocSlow_debug (manager : TypeManager Types) (waitCycle : Mutator Types → Mutator Types)
    (mutator : Mutator Types) (ty : AllocType) (extraBytes : Nat) :
    debug.allocSlow manager waitCycle mutator ty extraBytes =
      mutator.allocSlow manager waitCycle ty extraBytes := by
  have same : ∀ retries mutator, debug.retryAlloc manager waitCycle ty extraBytes retries mutator =
      Mutator.retryAlloc manager waitCycle ty extraBytes retries mutator := by
    intro retries
    induction retries with
    | zero => intro _; rfl
    | succ retries ih =>
        intro mutator
        simp only [retryAlloc, Mutator.retryAlloc, allocFast_debug]
        cases mutator.allocFast manager ty extraBytes with
        | error panic => rfl
        | ok result =>
            obtain ⟨result, next⟩ := result
            cases result with
            | none => exact ih (waitCycle next)
            | some ptr => rfl
  exact same 3 mutator

variable {build} {manager : TypeManager Types} {mutator after : Mutator Types} {ty : AllocType}
  {extraBytes ptr reserved : Nat}

/-- The bytes from `ptr` on were reserved from the page table for this request. -/
def Reserved (build : Build) (manager : TypeManager Types) (ty : AllocType) (extraBytes ptr reserved : Nat)
    (after : Mutator Types) : Prop :=
  ∃ (before : Mutator Types) (page : Nat), build.requestedBytes manager before ty extraBytes = .ok reserved ∧
    before.mmContext.allocFromPageTable before.mm reserved =
      .ok (some (ptr, page), after.mmContext, after.mm) ∧ after.types = before.types

theorem allocFast_reserved (addressable : mutator.mm.Addressable)
    (returned : build.allocFast manager mutator ty extraBytes = .ok (some ptr, after)) :
    ∃ reserved, build.Reserved manager ty extraBytes ptr reserved after ∧ Servable reserved := by
  simp only [allocFast, bind_eq_ok] at returned
  obtain ⟨reserved, requested, ⟨result, mmContext, mm⟩, allocated, rest⟩ := returned
  cases result with
  | none => cases rest
  | some place =>
      cases rest
      exact ⟨reserved, ⟨mutator, place.2, requested, allocated, rfl⟩,
        Mm.Context.served_servable addressable allocated⟩

theorem allocFast_failed (addressable : mutator.mm.Addressable)
    (returned : build.allocFast manager mutator ty extraBytes = .ok (none, after)) : after.mm.Addressable := by
  simp only [allocFast, bind_eq_ok] at returned
  obtain ⟨reserved, requested, ⟨result, mmContext, mm⟩, allocated, rest⟩ := returned
  cases result with
  | none =>
      cases rest
      exact Mm.Context.failed_addressable addressable allocated
  | some place => cases rest

theorem retryAlloc_reserved {waitCycle : Mutator Types → Mutator Types} {retries : Nat}
    (keeps : ∀ mutator, mutator.mm.Addressable → (waitCycle mutator).mm.Addressable)
    (addressable : mutator.mm.Addressable)
    (returned : build.retryAlloc manager waitCycle ty extraBytes retries mutator = .ok (some ptr, after)) :
    ∃ reserved, build.Reserved manager ty extraBytes ptr reserved after ∧ Servable reserved := by
  induction retries generalizing mutator with
  | zero => cases returned
  | succ retries ih =>
      simp only [retryAlloc, bind_eq_ok] at returned
      obtain ⟨⟨result, tried⟩, allocated, rest⟩ := returned
      cases result with
      | none => exact ih (keeps tried (allocFast_failed addressable allocated)) rest
      | some _ =>
          cases rest
          exact allocFast_reserved addressable allocated

/-- The size of a type, or of plain data, and the header before the extra bytes. -/
def neededBytes (manager : TypeManager Types) (types : Types) : AllocType → Option Nat
  | .plainOldData size => some (size.toNat + metadataSize)
  | .typed typeId => match manager.getStaticSize types typeId with
      | .ok (some size) => some (size + metadataSize)
      | _ => none

theorem getSizeOfAlloc_release {bytes : Nat} :
    release.getSizeOfAlloc manager mutator ty = .ok bytes ↔
      ∃ needed, neededBytes manager mutator.types ty = some needed ∧ bytes = needed % 2 ^ 64 := by
  cases ty with
  | plainOldData size =>
      have computed : release.getSizeOfAlloc manager mutator (.plainOldData size) =
          .ok ((size.toNat + metadataSize) % 2 ^ 64) := rfl
      simp [computed, neededBytes, eq_comm]
  | typed typeId =>
      simp only [getSizeOfAlloc, neededBytes]
      cases manager.getStaticSize mutator.types typeId with
      | error panic => simp [bind, Except.bind]
      | ok size => cases size <;> simp [bind, Except.bind, unwrap, add, eq_comm]

/-- A release build asks for the sum modulo `2 ^ 64`. -/
theorem requestedBytes_release :
    release.requestedBytes manager mutator ty extraBytes = .ok reserved ↔
      ∃ needed, neededBytes manager mutator.types ty = some needed ∧
        reserved = (needed + extraBytes) % 2 ^ 64 := by
  simp only [requestedBytes, bind_eq_ok, getSizeOfAlloc_release]
  constructor
  · rintro ⟨_, ⟨needed, known, rfl⟩, requested⟩
    cases requested
    exact ⟨needed, known, Nat.mod_add_mod ..⟩
  · rintro ⟨needed, known, rfl⟩
    exact ⟨_, ⟨needed, known, rfl⟩, congrArg Except.ok (Nat.mod_add_mod ..)⟩

theorem neededBytes_plain (types : Types) (size : UInt64) :
    neededBytes manager types (.plainOldData size) = some (size.toNat + metadataSize) := rfl

/-- The remainder reaches what is needed only where the sum is one. -/
theorem needed_le_wrapped {needed extraBytes : Nat} (word : extraBytes < 2 ^ 64) :
    needed ≤ (needed + extraBytes) % 2 ^ 64 ↔ needed + extraBytes < 2 ^ 64 := by
  omega

def newMutator (types : Types) : Mutator Types where
  mmContext := .new
  mm := Mm.Context.wholeSpace
  types := types
  markTrueBit := .bit0
  memory := fun _ => 0

theorem allocFast_newMutator {types : Types} (servable : Servable reserved)
    (requested : build.requestedBytes manager (newMutator types) ty extraBytes = .ok reserved) :
    ∃ ptr after, build.allocFast manager (newMutator types) ty extraBytes = .ok (some ptr, after) ∧
      after.types = types := by
  obtain ⟨⟨ptr, page⟩, mmContext, mm, served⟩ := Mm.Context.wholeSpace_serves servable
  refine ⟨ptr, { newMutator types with mmContext, mm, memory := (newMutator types).initObject ptr ty.toObjKind },
    ?_, rfl⟩
  simp only [allocFast, requested, bind_eq_ok]
  exact ⟨reserved, rfl, _, served, rfl⟩

end Build

end UwUGC
