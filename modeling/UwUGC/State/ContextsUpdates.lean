import UwUGC.State.ContextsProperties

/-! What the collector and the mutators change of the contexts: never the map, and each only
its own part of a context. -/

set_option autoImplicit false

namespace UwUGC.State.Contexts

variable {Thread : Type} {contexts later : Contexts Thread} {arc other : Nat} {context : ContextShared}

/-- The map and the contexts that exist stay as they are. -/
structure SameMap (contexts later : Contexts Thread) : Prop where
  entries : later.entries = contexts.entries
  live : later.live = contexts.live
  length : later.shared.length = contexts.shared.length

theorem Consistent.same (consistent : contexts.Consistent) (same : contexts.SameMap later) : later.Consistent where
  once := by
    rw [same.entries]
    exact consistent.once
  kept := by
    rw [same.live, same.entries]
    exact consistent.kept
  made := by
    rw [same.entries, same.length]
    exact consistent.made

theorem sameMap_setShared : contexts.SameMap (contexts.setShared arc context) :=
  ⟨rfl, rfl, List.length_set ..⟩

theorem shared_setShared {old : ContextShared} (found : contexts.shared[arc]? = some old) :
    (contexts.setShared arc context).shared[other]? =
      if other = arc then some context else contexts.shared[other]? := by
  have inside := (List.getElem?_eq_some_iff.mp found).1
  by_cases same : other = arc
  · subst same
    simp [setShared, inside]
  · rw [if_neg same]
    exact List.getElem?_set_ne (Ne.symm same)

theorem flushEach_getElem? (arcs : List Nat) (shared : List ContextShared) (other : Nat) :
    (flushEach arcs shared)[other]? =
      if other ∈ arcs then (shared[other]?).map fun context => { context with mmContext := context.mmContext.flushLocalBuf }
      else shared[other]? := by
  induction arcs generalizing shared with
  | nil => rfl
  | cons arc rest ih =>
      rw [flushEach, ih]
      by_cases same : arc = other
      · subst same
        cases found : shared[arc]? <;> simp [found, Mm.Context.flushLocalBuf]
      · simp [Ne.symm same, same]

theorem length_flushEach (arcs : List Nat) (shared : List ContextShared) :
    (flushEach arcs shared).length = shared.length := by
  induction arcs generalizing shared with
  | nil => rfl
  | cons arc rest ih => rw [flushEach, ih, List.length_modify]

theorem sameMap_flush : contexts.SameMap contexts.flush :=
  ⟨rfl, rfl, length_flushEach ..⟩

theorem shared_flush (found : contexts.flush.shared[arc]? = some context) :
    ∃ old, contexts.shared[arc]? = some old ∧ context.rootSet = old.rootSet ∧
      (context.mmContext = old.mmContext ∨ context.mmContext.localBufferPage = none) := by
  rw [flush, flushEach_getElem?] at found
  split at found
  · simp only [Option.map_eq_some_iff] at found
    obtain ⟨old, there, rfl⟩ := found
    exact ⟨old, there, rfl, .inr rfl⟩
  · exact ⟨context, found, rfl, .inl rfl⟩

variable {visitor : Nat → Except Panic Nat}

theorem mapEach_eq_ok {arcs : List Nat} {shared mapped : List ContextShared}
    (returned : mapEach visitor arcs shared = .ok mapped) :
    mapped.length = shared.length ∧
      ∀ arc : Nat, (mapped[arc]?).map ContextShared.mmContext = (shared[arc]?).map ContextShared.mmContext := by
  induction arcs generalizing shared with
  | nil =>
      cases returned
      exact ⟨rfl, fun _ => rfl⟩
  | cons first rest ih =>
      unfold mapEach at returned
      split at returned
      · exact ih returned
      · next context found =>
          simp only [bind_eq_ok] at returned
          obtain ⟨rootSet, _, returned⟩ := returned
          obtain ⟨length, kept⟩ := ih returned
          refine ⟨length.trans (List.length_set ..), ?_⟩
          intro arc
          rw [kept arc, List.getElem?_set]
          by_cases same : first = arc
          · subst same
            have inside := (List.getElem?_eq_some_iff.mp found).1
            rw [if_pos rfl, if_pos inside, found]
            rfl
          · rw [if_neg same]

theorem mapRoots_eq_ok (returned : contexts.mapRoots visitor = .ok later) :
    contexts.SameMap later ∧ mapEach visitor (contexts.entries.map Prod.snd) contexts.shared = .ok later.shared := by
  simp only [mapRoots, bind_eq_ok, Except.ok.injEq] at returned
  obtain ⟨shared, mapped, rfl⟩ := returned
  exact ⟨⟨rfl, rfl, (mapEach_eq_ok mapped).1⟩, mapped⟩

theorem mmContext_mapRoots (returned : contexts.mapRoots visitor = .ok later)
    (found : later.shared[arc]? = some context) :
    ∃ old, contexts.shared[arc]? = some old ∧ context.mmContext = old.mmContext := by
  have kept := (mapEach_eq_ok (mapRoots_eq_ok returned).2).2 arc
  rw [found] at kept
  obtain ⟨old, there, same⟩ := Option.map_eq_some_iff.mp kept.symm
  exact ⟨old, there, same.symm⟩

theorem mmContext_kept (returned : contexts.mapRoots visitor = .ok later)
    (found : contexts.shared[arc]? = some context) :
    ∃ mapped, later.shared[arc]? = some mapped ∧ mapped.mmContext = context.mmContext := by
  have kept := (mapEach_eq_ok (mapRoots_eq_ok returned).2).2 arc
  rw [found] at kept
  exact Option.map_eq_some_iff.mp kept

def moved (move : Nat → Nat) (context : ContextShared) : ContextShared :=
  { context with rootSet := context.rootSet.map (Option.map move) }

theorem mapEach_returns {move : Nat → Nat} {arcs : List Nat} {shared : List ContextShared} (apart : arcs.Nodup)
    (visited : ∀ arc ∈ arcs, ∀ context, shared[arc]? = some context →
      ∀ ptr ∈ context.rootSet.iterPointers, visitor ptr = .ok (move ptr)) :
    ∃ mapped, mapEach visitor arcs shared = .ok mapped ∧
      ∀ arc : Nat, mapped[arc]? = if arc ∈ arcs then (shared[arc]?).map (moved move) else shared[arc]? := by
  induction arcs generalizing shared with
  | nil => exact ⟨shared, rfl, by simp⟩
  | cons first rest ih =>
      obtain ⟨fresh, restApart⟩ := List.nodup_cons.mp apart
      unfold mapEach
      cases found : shared[first]? with
      | none =>
          obtain ⟨mapped, returned, entries⟩ := ih restApart fun arc member => visited arc (List.mem_cons_of_mem _ member)
          refine ⟨mapped, returned, ?_⟩
          intro arc
          rw [entries arc]
          by_cases same : arc = first
          · subst same
            simp [fresh, found]
          · simp [same]
      | some context =>
          have roots := RootSet.mapPointers_returns (visited first List.mem_cons_self context found)
          have inside := (List.getElem?_eq_some_iff.mp found).1
          have others (arc : Nat) (different : first ≠ arc) :
              (shared.set first (moved move context))[arc]? = shared[arc]? := List.getElem?_set_ne different
          have rested : ∀ arc ∈ rest, ∀ other, (shared.set first (moved move context))[arc]? = some other →
              ∀ ptr ∈ other.rootSet.iterPointers, visitor ptr = .ok (move ptr) := by
            intro arc member other there
            have different : first ≠ arc := fun same => fresh (same ▸ member)
            rw [others arc different] at there
            exact visited arc (List.mem_cons_of_mem _ member) other there
          obtain ⟨mapped, returned, entries⟩ := ih restApart rested
          refine ⟨mapped, ?_, ?_⟩
          · simp only [roots, bind, Except.bind]
            exact returned
          · intro arc
            rw [entries arc]
            by_cases same : arc = first
            · subst same
              rw [if_neg fresh, List.getElem?_set_self inside, if_pos List.mem_cons_self, found]
              rfl
            · simp [same, others arc (Ne.symm same)]

theorem mapRoots_returns {move : Nat → Nat} (apart : (contexts.entries.map Prod.snd).Nodup)
    (visited : ∀ ptr ∈ contexts.rootSets.flatMap RootSet.iterPointers, visitor ptr = .ok (move ptr)) :
    ∃ later, contexts.mapRoots visitor = .ok later ∧
      later.rootSets = contexts.rootSets.map (List.map (Option.map move)) := by
  have each : ∀ arc ∈ contexts.entries.map Prod.snd, ∀ context, contexts.shared[arc]? = some context →
      ∀ ptr ∈ context.rootSet.iterPointers, visitor ptr = .ok (move ptr) := by
    intro arc member context found ptr pointed
    obtain ⟨entry, listed, rfl⟩ := List.mem_map.mp member
    refine visited ptr (List.mem_flatMap.mpr ⟨context.rootSet, List.mem_map_of_mem ?_, pointed⟩)
    exact List.mem_filterMap.mpr ⟨entry, listed, found⟩
  obtain ⟨mapped, returned, entries⟩ := mapEach_returns apart each
  refine ⟨{ contexts with shared := mapped }, by simp only [mapRoots, returned, bind, Except.bind], ?_⟩
  have listed : listed { contexts with shared := mapped } = contexts.listed.map (moved move) := by
    simp only [Contexts.listed, List.map_filterMap]
    apply List.filterMap_congr
    intro entry member
    rw [entries entry.2, if_pos (List.mem_map_of_mem member)]
  simp only [rootSets, listed, List.map_map, Function.comp_def, moved]

end UwUGC.State.Contexts
