import UwUGC.Plus.PointerIterator
import UwUGC.Plus.TypesProperties
import UwUGC.State.ContextsProperties
import UwUGC.State.SystemSteps

/-! What a cycle does to the types that were registered at run time. The collector assumes
all of them dead and wipes the dead; nothing in between tells it which of them live. -/

set_option autoImplicit false

namespace UwUGC.Plus

open Gc State

def registerType (descriptor : Descriptor) (types : Types) : Except Panic Types :=
  (types.register descriptor).map Prod.snd

section System

variable {Thread : Type} (statics : UInt64 → Descriptor)

variable [DecidableEq Thread]

def stepTypes : State.System Types Thread → State.Action Descriptor Thread → Option (State.System Types Thread) :=
  State.System.step (Types.typeManager statics) registerType

end System

def AllDead (types : Types) : Prop :=
  ∀ typeId entry, types.dynamicTypes typeId = some entry → entry.markedDead = true

theorem AllDead.register {types registered : Types} {descriptor : Descriptor} (dead : AllDead types)
    (changed : registerType descriptor types = .ok registered) : AllDead registered := by
  obtain ⟨⟨typeId, _⟩, returned, rfl⟩ := map_eq_ok.mp changed
  obtain ⟨_, _, _, _, table⟩ := Types.register_eq_ok returned
  intro other entry found
  rw [table] at found
  by_cases same : other = types.latestId
  · rw [same, Function.update_self, Option.some.injEq] at found
    rw [← found]
  · rw [Function.update_of_ne same] at found
    exact dead other entry found

theorem AllDead.assumeAllDead (types : Types) : AllDead types.assumeAllDead := by
  intro typeId entry found
  obtain ⟨old, _, rfl⟩ := Option.map_eq_some_iff.mp found
  rfl

theorem AllDead.wiped {types : Types} (dead : AllDead types) (typeId : UInt64) :
    types.wipeDeads.dynamicTypes typeId = none := by
  change (types.dynamicTypes typeId).filter (fun entry => !entry.markedDead) = none
  cases found : types.dynamicTypes typeId with
  | none => rfl
  | some entry => simp [Option.filter, dead typeId entry found]

theorem AllDead.wipeDeads {types : Types} (dead : AllDead types) : AllDead types.wipeDeads := by
  intro typeId entry found
  rw [dead.wiped typeId] at found
  cases found

variable {Thread : Type} {statics : UInt64 → Descriptor} {state next : State.System Types Thread}

theorem AllDead.acts {action : Collector.Action} (dead : AllDead state.shared.types)
    (acts : Collector.Acts (Types.typeManager statics) state action next) : AllDead next.shared.types := by
  cases acts with
  | step1 => exact .assumeAllDead _
  | step3 => exact dead.wipeDeads
  | _ => exact dead

theorem AllDead.step [DecidableEq Thread] {action : State.Action Descriptor Thread} (dead : AllDead state.shared.types)
    (taken : stepTypes statics state action = some next) : AllDead next.shared.types := by
  cases State.System.step_eq_some taken with
  | newContext => exact dead
  | dropContext => exact dead
  | operate _ _ operates =>
      cases operates with
      | request changed => exact dead.register changed
      | _ => exact dead
  | collector acted => exact dead.acts (Collector.act_eq_ok acted)

variable [DecidableEq Thread]

end UwUGC.Plus
