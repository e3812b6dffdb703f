import UwUGC.State.Contexts
import UwUGC.Gc.MarkerProperties

/-! What the map of contexts tells of the contexts that exist. -/

set_option autoImplicit false

namespace UwUGC.State.Contexts

open Gc

variable {Thread : Type}

/-- One entry for each context that exists, with its own part, and no other. -/
structure Exact (contexts : Contexts Thread) : Prop where
  once : (contexts.entries.map Prod.fst).Nodup
  listed : ∀ thread arc, (thread, arc) ∈ contexts.entries ↔ contexts.live thread = some arc

/-- An object that some existing context still reaches. -/
def Reaches {Types : Type} (contexts : Contexts Thread) (manager : TypeManager Types) (types : Types)
    (memory : Memory) (obj : Nat) : Prop :=
  ∃ thread context, contexts.own thread = some context ∧ manager.Reachable types memory [context.rootSet] obj

/-- What step 1 takes from the map. -/
structure Seen (contexts : Contexts Thread) : Prop where
  exact : contexts.Exact
  snapshot : ∀ ptr, ptr ∈ contexts.rootSets.flatMap RootSet.iterPointers ↔
    ∃ thread context, contexts.own thread = some context ∧ ptr ∈ context.rootSet.iterPointers
  /-- A cycle from here records nothing that no existing context reaches. -/
  recorded : ∀ {Types : Type} (manager : TypeManager Types) (input : MarkerInput Types) objects,
    input.WellFormed manager objects → input.roots = contexts.rootSets →
    ∃ output enough, (∀ fuel ≥ enough, Marker.start manager .new .new input fuel = .ok (some output)) ∧
      ∀ obj ∈ objects, ¬ contexts.Reaches manager input.types input.memory obj →
        ∀ record ∈ output.registry.data.recordsSortedBySrc, record.src ≠ obj - input.heap.start

/-- What holds in every run: the parts of the contexts that exist are made and are in the map. -/
structure Consistent (contexts : Contexts Thread) : Prop where
  once : (contexts.entries.map Prod.fst).Nodup
  kept : ∀ thread arc, contexts.live thread = some arc → (thread, arc) ∈ contexts.entries
  made : ∀ thread arc, (thread, arc) ∈ contexts.entries → arc < contexts.shared.length

theorem Consistent.new : Consistent (new : Contexts Thread) where
  once := .nil
  kept := by simp [Contexts.new]
  made := by simp [Contexts.new]

theorem Exact.snapshot {contexts : Contexts Thread} (exact : contexts.Exact) (ptr : Nat) :
    ptr ∈ contexts.rootSets.flatMap RootSet.iterPointers ↔
      ∃ thread context, contexts.own thread = some context ∧ ptr ∈ context.rootSet.iterPointers := by
  simp only [rootSets, Contexts.listed, List.mem_flatMap, List.mem_map, List.mem_filterMap, own, Option.bind_eq_some_iff]
  constructor
  · intro ⟨_, ⟨context, ⟨⟨thread, arc⟩, member, found⟩, rfl⟩, pointed⟩
    exact ⟨thread, context, ⟨arc, (exact.listed thread arc).mp member, found⟩, pointed⟩
  · intro ⟨thread, context, ⟨arc, live, found⟩, pointed⟩
    exact ⟨_, ⟨context, ⟨(thread, arc), (exact.listed thread arc).mpr live, found⟩, rfl⟩, pointed⟩

theorem Exact.reaches {contexts : Contexts Thread} (exact : contexts.Exact) {Types : Type}
    {manager : TypeManager Types} {types : Types} {memory : Memory} {obj : Nat}
    (reachable : manager.Reachable types memory contexts.rootSets obj) :
    contexts.Reaches manager types memory obj := by
  obtain ⟨root, rooted, path⟩ := reachable
  obtain ⟨thread, context, own, pointed⟩ := (exact.snapshot root).mp rooted
  exact ⟨thread, context, own, root, by simpa using pointed, path⟩

theorem Exact.seen {contexts : Contexts Thread} (exact : contexts.Exact) : contexts.Seen where
  exact := exact
  snapshot := exact.snapshot
  recorded := by
    intro Types manager input objects wellFormed roots
    obtain ⟨output, marked, enough, starts⟩ := Marker.start_exact wellFormed
    refine ⟨output, enough, starts, ?_⟩
    intro obj member unreached record recorded same
    obtain ⟨order, _, visited, records⟩ := marked.recorded
    have source : (record.src, record.size) ∈
        order.map fun obj => (obj - input.heap.start, input.sizeOf manager obj) := by
      rw [← records.sources]
      exact List.mem_map_of_mem recorded
    obtain ⟨other, otherVisited, pair⟩ := List.mem_map.mp source
    have reachable := (visited other).mp otherVisited
    have otherMember := wellFormed.heap.reachable_mem wellFormed.roots reachable
    have start : other - input.heap.start = obj - input.heap.start := (Prod.mk.inj pair).1.trans same
    have one : other = obj := by
      have := wellFormed.inHeap obj member
      have := wellFormed.inHeap other otherMember
      omega
    rw [one, MarkerInput.Reachable, roots] at reachable
    exact unreached (exact.reaches reachable)

theorem setRoots_eq_some [DecidableEq Thread] {contexts next : Contexts Thread} {thread : Thread} {rootSet : RootSet}
    (taken : contexts.setRoots thread rootSet = some next) :
    next.entries = contexts.entries ∧ next.live = contexts.live ∧ next.shared.length = contexts.shared.length := by
  simp only [setRoots, bind, Option.bind_eq_some_iff, Option.some.injEq] at taken
  obtain ⟨arc, _, context, _, rfl⟩ := taken
  exact ⟨rfl, rfl, List.length_set ..⟩

section New

variable [DecidableEq Thread] {contexts next : Contexts Thread} {thread : Thread} {rootSet : RootSet}

theorem newContext_eq_some (taken : contexts.newContext thread rootSet = some next) :
    contexts.live thread = none ∧
    next.entries = contexts.entries.filter (·.1 ≠ thread) ++ [(thread, contexts.shared.length)] ∧
    next.shared = contexts.shared ++ [⟨.new, rootSet⟩] ∧
    next.live = Function.update contexts.live thread (some contexts.shared.length) := by
  obtain ⟨free, result⟩ := Option.ite_none_right_eq_some.mp taken
  cases result
  exact ⟨free, rfl, rfl, rfl⟩

theorem entries_newContext (taken : contexts.newContext thread rootSet = some next) (other : Thread) (arc : Nat) :
    (other, arc) ∈ next.entries ↔
      if other = thread then arc = contexts.shared.length else (other, arc) ∈ contexts.entries := by
  obtain ⟨_, entries, _, _⟩ := newContext_eq_some taken
  rw [entries]
  by_cases same : other = thread <;> simp [same]

theorem once_newContext (taken : contexts.newContext thread rootSet = some next)
    (once : (contexts.entries.map Prod.fst).Nodup) : (next.entries.map Prod.fst).Nodup := by
  obtain ⟨_, entries, _, _⟩ := newContext_eq_some taken
  rw [entries, List.map_append, List.nodup_append]
  refine ⟨once.sublist (List.filter_sublist.map _), List.nodup_singleton _, ?_⟩
  intro left leftMember right rightMember
  obtain ⟨entry, inside, rfl⟩ := List.mem_map.mp leftMember
  have other := (List.mem_filter.mp inside).2
  simp only [List.map_cons, List.map_nil, List.mem_singleton] at rightMember
  rw [rightMember]
  simpa using other

theorem Exact.newContext (exact : contexts.Exact) (taken : contexts.newContext thread rootSet = some next) :
    next.Exact where
  once := once_newContext taken exact.once
  listed := by
    intro other arc
    obtain ⟨_, _, _, live⟩ := newContext_eq_some taken
    rw [entries_newContext taken, live]
    by_cases same : other = thread
    · subst same
      simp [eq_comm]
    · rw [if_neg same, Function.update_of_ne same]
      exact exact.listed other arc

theorem Consistent.newContext (consistent : contexts.Consistent)
    (taken : contexts.newContext thread rootSet = some next) : next.Consistent where
  once := once_newContext taken consistent.once
  kept := by
    intro other arc own
    obtain ⟨_, _, _, live⟩ := newContext_eq_some taken
    rw [live] at own
    rw [entries_newContext taken]
    by_cases same : other = thread
    · subst same
      simpa [eq_comm] using own
    · rw [Function.update_of_ne same] at own
      rw [if_neg same]
      exact consistent.kept other arc own
  made := by
    intro other arc member
    obtain ⟨_, _, shared, _⟩ := newContext_eq_some taken
    rw [entries_newContext taken] at member
    rw [shared, List.length_append]
    split at member
    · rw [member]
      exact Nat.lt_succ_self _
    · exact Nat.lt_succ_of_lt (consistent.made other arc member)

theorem dropContext_eq_some (taken : contexts.dropContext thread = some next) :
    contexts.live thread ≠ none ∧ next = { contexts with live := Function.update contexts.live thread none } := by
  obtain ⟨exists_, result⟩ := Option.ite_none_left_eq_some.mp taken
  exact ⟨exists_, (Option.some.inj result).symm⟩

theorem Consistent.dropContext (consistent : contexts.Consistent) (taken : contexts.dropContext thread = some next) :
    next.Consistent := by
  obtain ⟨_, rfl⟩ := dropContext_eq_some taken
  refine ⟨consistent.once, ?_, consistent.made⟩
  intro other arc own
  by_cases same : other = thread
  · subst same
    simp at own
  · simp only [Function.update_of_ne same] at own
    exact consistent.kept other arc own

theorem Consistent.step {action : Action Thread} (consistent : contexts.Consistent)
    (taken : contexts.step action = some next) : next.Consistent := by
  cases action with
  | newContext thread rootSet => exact consistent.newContext taken
  | dropContext thread => exact consistent.dropContext taken
  | setRoots thread rootSet =>
      obtain ⟨entries, live, length⟩ := setRoots_eq_some taken
      refine ⟨entries ▸ consistent.once, ?_, ?_⟩
      · rw [entries, live]
        exact consistent.kept
      · rw [entries, length]
        exact consistent.made

/-- The context is not dropped. -/
def Stays (_contexts : Contexts Thread) (action : Action Thread) : Prop :=
  ∀ thread, action ≠ .dropContext thread

theorem Exact.step {action : Action Thread} (exact : contexts.Exact) (stays : Stays contexts action)
    (taken : contexts.step action = some next) : next.Exact := by
  cases action with
  | newContext thread rootSet => exact exact.newContext taken
  | dropContext thread => exact absurd rfl (stays thread)
  | setRoots thread rootSet =>
      obtain ⟨entries, live, _⟩ := setRoots_eq_some taken
      refine ⟨entries ▸ exact.once, ?_⟩
      rw [entries, live]
      exact exact.listed

end New

variable [DecidableEq Thread]

/-- The collector sees the roots of the existing contexts, at every point of a run, exactly
when no context of the run is dropped. -/
theorem contexts_seen_iff {actions : List (Action Thread)} {final : Contexts Thread}
    (ran : Transition.run step new actions = some final) :
    Transition.Throughout step new actions Seen ↔ Transition.EachStep step new actions Stays := by
  constructor
  · intro throughout
    refine throughout.eachStep ran Consistent .new (fun _ _ _ consistent taken => consistent.step taken) ?_
    intro contexts action next consistent _ taken seen thread dropped
    subst dropped
    obtain ⟨existed, rfl⟩ := dropContext_eq_some taken
    obtain ⟨arc, own⟩ := Option.ne_none_iff_exists'.mp existed
    have gone := (seen.exact.listed thread arc).mp (consistent.kept thread arc own)
    simp at gone
  · intro each
    have holds := each.throughout Exact ⟨.nil, by simp [new]⟩ fun _ _ _ exact stays taken => exact.step stays taken
    intro past rest contexts split reached
    exact (holds past rest contexts split reached).seen

/-- The entry of a dropped context stays in the map, and its roots in the snapshot. -/
theorem dropped_context_listed :
    ∃ contexts, Transition.run step (new : Contexts Nat) [.newContext 0 [some 16], .dropContext 0] = some contexts ∧
      contexts.live 0 = none ∧ (0, 0) ∈ contexts.entries ∧ contexts.rootSets = [[some 16]] :=
  ⟨_, rfl, rfl, List.mem_singleton_self _, rfl⟩

theorem contexts_seen_two :
    Transition.Throughout step (new : Contexts Nat) [.newContext 0 [none], .newContext 1 [some 16], .setRoots 0 [some 32]]
      Seen := by
  refine (contexts_seen_iff rfl).mpr ?_
  rintro past action rest state split _ thread rfl
  have dropped : Action.dropContext thread ∈ [.newContext 0 [none], .newContext 1 [some 16], .setRoots 0 [some 32]] := by
    rw [split]
    exact List.mem_append_right _ List.mem_cons_self
  simp at dropped

end UwUGC.State.Contexts
