import UwUGC.Lib.Transition
import UwUGC.Plus.Types

/-! What becomes of a type behind its registration. The counter issues ids of every
residue, and only one residue of four is looked up in the table. -/

set_option autoImplicit false

namespace UwUGC.Plus

namespace Types

inductive Action where
  | register (descriptor : Descriptor)
  | setAlive (typeId : UInt64)
  | assumeAllDead
  | wipeDeads

def step (types : Types) : Action → Option Types
  | .register descriptor =>
      match types.register descriptor with
      | .ok (_, registered) => some registered
      | .error _ => none
  | .setAlive typeId => some (types.setAlive typeId).2
  | .assumeAllDead => some types.assumeAllDead
  | .wipeDeads => some types.wipeDeads

def Action.isRegister : Action → Bool
  | .register _ => true
  | _ => false

def registrations (actions : List Action) : Nat := actions.countP Action.isRegister

/-- Whether an id that is in the table, and marked dead or not, stays in it. -/
def kept (typeId : UInt64) : Bool → List Action → Bool
  | _, [] => true
  | dead, .register _ :: rest => kept typeId dead rest
  | dead, .setAlive alive :: rest => kept typeId (dead && alive != typeId) rest
  | _, .assumeAllDead :: rest => kept typeId true rest
  | dead, .wipeDeads :: rest => !dead && kept typeId dead rest

theorem register_eq_ok {types registered : Types} {descriptor : Descriptor} {typeId : UInt64}
    (returned : types.register descriptor = .ok (typeId, registered)) :
    typeId = types.latestId ∧ types.latestId.toNat + 1 < 2 ^ 64 ∧
    types.dynamicTypes types.latestId = none ∧ registered.latestId = types.latestId + 1 ∧
    registered.dynamicTypes = Function.update types.dynamicTypes types.latestId (some ⟨true, descriptor⟩) := by
  unfold register at returned
  split at returned
  · next below =>
      split at returned
      · cases returned
      · next free =>
          cases returned
          exact ⟨rfl, below, free, rfl, rfl⟩
  · cases returned

inductive Moves (types : Types) : Action → Types → Prop where
  | register {descriptor : Descriptor} {registered : Types} (below : types.latestId.toNat + 1 < 2 ^ 64)
      (free : types.dynamicTypes types.latestId = none) (counted : registered.latestId = types.latestId + 1)
      (table : registered.dynamicTypes =
        Function.update types.dynamicTypes types.latestId (some ⟨true, descriptor⟩)) :
      Moves types (.register descriptor) registered
  | setAlive {typeId : UInt64} : Moves types (.setAlive typeId) (types.setAlive typeId).2
  | assumeAllDead : Moves types .assumeAllDead types.assumeAllDead
  | wipeDeads : Moves types .wipeDeads types.wipeDeads

theorem moves {types next : Types} {action : Action} (taken : types.step action = some next) :
    Moves types action next := by
  cases action with
  | register descriptor =>
      simp only [step] at taken
      split at taken
      · next returned =>
          cases taken
          obtain ⟨_, below, free, counted, table⟩ := register_eq_ok returned
          exact .register below free counted table
      · cases taken
  | setAlive typeId => exact Option.some.inj taken ▸ .setAlive
  | assumeAllDead => exact Option.some.inj taken ▸ .assumeAllDead
  | wipeDeads => exact Option.some.inj taken ▸ .wipeDeads

@[simp] theorem setAlive_latestId (types : Types) (typeId : UInt64) :
    (types.setAlive typeId).2.latestId = types.latestId := by
  unfold setAlive
  split <;> rfl

theorem setAlive_dynamicTypes (types : Types) (alive typeId : UInt64) :
    (types.setAlive alive).2.dynamicTypes typeId =
      (types.dynamicTypes typeId).map fun entry =>
        { entry with markedDead := entry.markedDead && alive != typeId } := by
  unfold setAlive
  by_cases same : typeId = alive
  · subst same
    cases found : types.dynamicTypes typeId with
    | none => simp [found]
    | some entry => simp
  · have differs : (alive != typeId) = true := by simpa using Ne.symm same
    cases types.dynamicTypes alive with
    | none => simp [differs]
    | some entry => simp [Function.update_of_ne same, differs]

theorem counter_succ {counter : UInt64} (below : counter.toNat + 1 < 2 ^ 64) :
    (counter + 1).toNat = counter.toNat + 1 := by
  rw [UInt64.toNat_add]
  exact Nat.mod_eq_of_lt below

/-- The counter counts the registrations, and the table holds ids below it only. -/
structure Counted (registered : Nat) (types : Types) : Prop where
  counter : types.latestId.toNat = registered
  below : ∀ typeId, types.dynamicTypes typeId ≠ none → typeId.toNat < registered

theorem Counted.new : Counted 0 new where
  counter := rfl
  below := by simp [Types.new]

theorem registrations_concat (actions : List Action) (action : Action) :
    registrations (actions ++ [action]) = registrations actions + if action.isRegister then 1 else 0 := by
  simp [registrations, List.countP_append, List.countP_cons]

theorem Counted.step {registered : Nat} {types next : Types} {action : Action} (counted : Counted registered types)
    (taken : types.step action = some next) :
    Counted (registered + if action.isRegister then 1 else 0) next := by
  obtain ⟨counter, below⟩ := counted
  cases moves taken with
  | register room _ later table =>
      refine ⟨?_, ?_⟩
      · rw [later, counter_succ room, counter]
        rfl
      · intro typeId present
        rw [table] at present
        by_cases same : typeId = types.latestId
        · rw [same, counter]
          exact Nat.lt_succ_self _
        · rw [Function.update_of_ne same] at present
          exact Nat.lt_succ_of_lt (below typeId present)
  | setAlive =>
      refine ⟨by simpa [Action.isRegister] using counter, ?_⟩
      intro typeId present
      rw [setAlive_dynamicTypes] at present
      exact below typeId fun absent => present (by rw [absent]; rfl)
  | assumeAllDead =>
      refine ⟨counter, ?_⟩
      intro typeId present
      exact below typeId fun absent => present (by simp [assumeAllDead, absent])
  | wipeDeads =>
      refine ⟨counter, ?_⟩
      intro typeId present
      exact below typeId fun absent => present (by simp [wipeDeads, absent])

theorem Counted.run {actions : List Action} {types : Types}
    (ran : Transition.run Types.step .new actions = some types) : Counted (registrations actions) types := by
  refine Transition.run_induction (fun past there => Counted (registrations past) there) ran .new ?_
  intro past there action next _ counted taken
  rw [registrations_concat]
  exact counted.step taken

/-- The descriptor of an id behind later actions, if they keep it. -/
def descriptorBehind (types : Types) (typeId : UInt64) (actions : List Action) : Option Descriptor :=
  ((types.dynamicTypes typeId).filter fun entry => kept typeId entry.markedDead actions).map (·.descriptor)

theorem descriptorBehind_cons {types next : Types} {action : Action} {typeId : UInt64} {rest : List Action}
    (issued : typeId.toNat < types.latestId.toNat) (taken : types.step action = some next) :
    next.descriptorBehind typeId rest = types.descriptorBehind typeId (action :: rest) := by
  cases moves taken with
  | register _ _ _ table =>
      have other : typeId ≠ types.latestId := by
        intro same
        rw [same] at issued
        exact Nat.lt_irrefl _ issued
      simp only [descriptorBehind, kept, table, Function.update_of_ne other]
  | setAlive =>
      simp only [descriptorBehind, kept, setAlive_dynamicTypes]
      cases found : types.dynamicTypes typeId with
      | none => rfl
      | some entry => simp [Option.filter_some, apply_ite]
  | assumeAllDead =>
      simp only [descriptorBehind, kept, assumeAllDead]
      cases found : types.dynamicTypes typeId with
      | none => rfl
      | some entry => simp [Option.filter_some, apply_ite]
  | wipeDeads =>
      simp only [descriptorBehind, kept, wipeDeads]
      cases found : types.dynamicTypes typeId with
      | none => rfl
      | some entry => cases dead : entry.markedDead <;> simp [Option.filter_some, dead]

theorem latestId_step {types next : Types} {action : Action} (taken : types.step action = some next) :
    types.latestId.toNat ≤ next.latestId.toNat := by
  cases moves taken with
  | register below _ later _ =>
      rw [later, counter_succ below]
      exact Nat.le_succ _
  | setAlive => simp
  | assumeAllDead => exact Nat.le_refl _
  | wipeDeads => exact Nat.le_refl _

/-- The table holds an issued id exactly as long as it is kept. -/
theorem dynamicTypes_behind {types final : Types} {actions : List Action} {typeId : UInt64}
    (ran : Transition.run step types actions = some final) (issued : typeId.toNat < types.latestId.toNat) :
    (final.dynamicTypes typeId).map (·.descriptor) = types.descriptorBehind typeId actions := by
  induction actions generalizing types with
  | nil =>
      cases ran
      cases found : final.dynamicTypes typeId <;> simp [descriptorBehind, kept, found, Option.filter_some]
  | cons action rest ih =>
      obtain ⟨next, taken, behind⟩ := Transition.run_cons_eq_some.mp ran
      rw [ih behind (Nat.lt_of_lt_of_le issued (latestId_step taken)), descriptorBehind_cons issued taken]

theorem typeType_toNat (typeId : UInt64) : (typeId &&& typeTypeMask).toNat = typeId.toNat % 4 := by
  rw [UInt64.toNat_and]
  exact Nat.and_two_pow_sub_one_eq_mod typeId.toNat 2

theorem typeType_eq_iff (typeId tag : UInt64) : typeId &&& typeTypeMask = tag ↔ typeId.toNat % 4 = tag.toNat := by
  rw [← UInt64.toNat_inj, typeType_toNat]

/-- Only the ids with the tag of dynamic types are looked up. -/
theorem getType_dynamic_iff {types : Types} {statics : UInt64 → Descriptor} {typeId : UInt64}
    {descriptor : Descriptor} :
    types.getType statics typeId = .ok (some (.dynamicallyKnown descriptor)) ↔
      typeId.toNat % 4 = 2 ∧ (types.dynamicTypes typeId).map (·.descriptor) = some descriptor := by
  simp only [getType, typeType_eq_iff]
  constructor
  · intro found
    split at found
    · split at found <;> cases found
    · split at found
      · cases found
      · split at found
        · next tag =>
            refine ⟨tag, ?_⟩
            cases entry : types.dynamicTypes typeId <;> simp_all
        · cases found
  · intro ⟨tag, found⟩
    obtain ⟨entry, present, same⟩ := Option.map_eq_some_iff.mp found
    simp [tag, present, same]

/-- A registered type that no wipe has removed is found again exactly when the number of
registrations before its own leaves the residue of the tag. Ids are never issued twice. -/
theorem registered_found_iff {past later : List Action} {types registered final : Types} {descriptor : Descriptor}
    {typeId : UInt64} (statics : UInt64 → Descriptor)
    (ran : Transition.run step new past = some types)
    (returned : types.register descriptor = .ok (typeId, registered))
    (behind : Transition.run step registered later = some final) (stays : kept typeId true later = true) :
    ((final.getType statics typeId = .ok (some (.dynamicallyKnown descriptor)) ∧
      final.getStaticSize statics typeId = .ok (some (TypeInfo.dynamicallyKnown descriptor).getStaticSize)) ↔
      registrations past % 4 = 2) ∧
    ∀ other otherId again, final.register other = .ok (otherId, again) → otherId ≠ typeId := by
  obtain ⟨issued, below, _, counter, table⟩ := register_eq_ok returned
  have counted := (Counted.run ran).counter
  have behindId : typeId.toNat < registered.latestId.toNat := by
    rw [counter, counter_succ below, issued]
    exact Nat.lt_succ_self _
  have found : (final.dynamicTypes typeId).map (·.descriptor) = some descriptor := by
    rw [dynamicTypes_behind behind behindId]
    simp [descriptorBehind, table, issued, issued ▸ stays]
  have decoded : final.getType statics typeId = .ok (some (.dynamicallyKnown descriptor)) ↔
      registrations past % 4 = 2 := by
    rw [getType_dynamic_iff, issued, counted]
    exact and_iff_left (issued ▸ found)
  refine ⟨⟨fun both => decoded.mp both.1, fun tag => ⟨decoded.mpr tag, ?_⟩⟩, ?_⟩
  · simp only [getStaticSize, decoded.mpr tag]
    rfl
  · intro other otherId again next same
    have later := (register_eq_ok next).1
    have grown : registered.latestId.toNat ≤ final.latestId.toNat := by
      refine Transition.run_invariant (fun there => registered.latestId.toNat ≤ there.latestId.toNat) behind
        (Nat.le_refl _) ?_
      intro there action following grown taken
      exact Nat.le_trans grown (latestId_step taken)
    rw [← later, same] at grown
    exact absurd behindId (Nat.not_lt.mpr grown)

/-- The first registration gets the id 0, which decodes as a null descriptor. -/
theorem first_registration_not_found :
    ∃ registered, Types.new.register (.new [] 8) = .ok (0, registered) ∧
      registered.getType (fun _ => .new [] 8) 0 = .error .unwrapNone :=
  ⟨_, rfl, rfl⟩

/-- The third registration, behind a cycle that keeps its type. -/
theorem registered_found_third :
    ∃ types registered final,
      Transition.run step new [.register (.new [] 8), .register (.new [0] 16)] = some types ∧
      types.register (.new [8] 24) = .ok (2, registered) ∧
      Transition.run step registered [.assumeAllDead, .setAlive 2, .wipeDeads] = some final ∧
      final.getType (fun _ => .new [] 0) 2 = .ok (some (.dynamicallyKnown (.new [8] 24))) := by
  obtain ⟨types, ran⟩ : ∃ types,
      Transition.run step new [.register (.new [] 8), .register (.new [0] 16)] = some types := ⟨_, rfl⟩
  obtain ⟨registered, returned⟩ : ∃ registered, types.register (.new [8] 24) = .ok (2, registered) := by
    cases ran
    exact ⟨_, rfl⟩
  obtain ⟨final, behind⟩ : ∃ final,
      Transition.run step registered [.assumeAllDead, .setAlive 2, .wipeDeads] = some final := ⟨_, rfl⟩
  have found := registered_found_iff (fun _ => .new [] 0) ran returned behind (by decide)
  exact ⟨types, registered, final, ran, returned, behind, (found.1.mpr (by decide)).1⟩

end Types

end UwUGC.Plus
