import UwUGC.Lib.Transition
import UwUGC.Plus.RootRefs
import Mathlib.Data.List.ReduceOption
import Mathlib.Data.List.Nodup
import Mathlib.Data.List.Perm.Basic

/-! The counters, the bitmap, the slots and the cells of the references stay in step. -/

set_option autoImplicit false

namespace UwUGC.Plus

/-- What the root set says about the live references. -/
structure Sound (inner : Inner) (live : List RootRefRaw) : Prop where
  exist : inner.existCount = live.length
  stored : inner.storedCount = live.countP (·.ptr.isNone)
  distinct : (live.map (·.idx)).Nodup
  sized : inner.set.length = inner.usedMap.length
  used : ∀ idx, inner.usedMap[idx]? = some true ↔ idx ∈ live.map (·.idx)
  slots : ∀ idx, (∃ ptr, inner.set[idx]? = some (some ptr)) ↔ ∃ ref ∈ live, ref.idx = idx ∧ ref.ptr = none

namespace Sound

variable {inner : Inner} {live other : List RootRefRaw} {ref : RootRefRaw}

theorem new : Sound .new [] where
  exist := rfl
  stored := rfl
  distinct := .nil
  sized := rfl
  used := by simp [Inner.new]
  slots := by simp [Inner.new]

/-- The order in which the references were made does not matter. -/
theorem perm (sound : Sound inner live) (same : live.Perm other) : Sound inner other where
  exist := sound.exist.trans same.length_eq
  stored := sound.stored.trans (same.countP_eq _)
  distinct := (same.map _).nodup_iff.mp sound.distinct
  sized := sound.sized
  used := fun idx => (sound.used idx).trans (same.map _).mem_iff
  slots := by
    intro idx
    rw [sound.slots]
    simp only [same.mem_iff]

theorem idx_lt (sound : Sound inner live) (member : ref ∈ live) : ref.idx < inner.set.length := by
  have used := (sound.used ref.idx).mpr (List.mem_map_of_mem member)
  rw [sound.sized]
  exact (List.getElem?_eq_some_iff.mp used).1

theorem slot_loaded (sound : Sound inner (ref :: live)) (loaded : ref.ptr ≠ none) :
    inner.set[ref.idx]? = some none := by
  have below := sound.idx_lt List.mem_cons_self
  cases slot : inner.set[ref.idx]? with
  | none => exact absurd below (Nat.not_lt.mpr (List.getElem?_eq_none_iff.mp slot))
  | some content =>
      cases content with
      | none => rfl
      | some ptr =>
          obtain ⟨owner, member, same, stored⟩ := (sound.slots ref.idx).mp ⟨ptr, slot⟩
          rcases List.mem_cons.mp member with here | rest
          · rw [here] at stored
            exact absurd stored loaded
          · have fresh := (List.nodup_cons.mp sound.distinct).1
            exact absurd (List.mem_map.mpr ⟨owner, rest, same⟩) fresh

theorem slot_stored (sound : Sound inner live) (member : ref ∈ live) (stored : ref.ptr = none) :
    ∃ ptr, inner.set[ref.idx]? = some (some ptr) :=
  (sound.slots ref.idx).mpr ⟨ref, member, rfl, stored⟩

theorem slot_unused (sound : Sound inner live) {idx : Nat} (unused : inner.usedMap[idx]? = some false) :
    inner.set[idx]? = some none := by
  have below : idx < inner.set.length := by
    rw [sound.sized]
    exact (List.getElem?_eq_some_iff.mp unused).1
  cases slot : inner.set[idx]? with
  | none => exact absurd below (Nat.not_lt.mpr (List.getElem?_eq_none_iff.mp slot))
  | some content =>
      cases content with
      | none => rfl
      | some ptr =>
          obtain ⟨owner, member, same, _⟩ := (sound.slots idx).mp ⟨ptr, slot⟩
          have used := (sound.used idx).mpr (List.mem_map.mpr ⟨owner, member, same⟩)
          rw [unused] at used
          cases used

theorem slots_set {next : RootRefRaw} {content : Option Nat} (sound : Sound inner (ref :: live))
    (same : next.idx = ref.idx) (filled : (∃ ptr, content = some ptr) ↔ next.ptr = none) (idx : Nat) :
    (∃ ptr, (inner.set.set ref.idx content)[idx]? = some (some ptr)) ↔
      ∃ owner ∈ next :: live, owner.idx = idx ∧ owner.ptr = none := by
  have below := sound.idx_lt List.mem_cons_self
  have fresh := (List.nodup_cons.mp sound.distinct).1
  by_cases here : ref.idx = idx
  · subst here
    simp only [List.getElem?_set_self below, Option.some.injEq, filled]
    constructor
    · intro stored
      exact ⟨next, List.mem_cons_self, same, stored⟩
    · intro ⟨owner, member, ownerIdx, stored⟩
      rcases List.mem_cons.mp member with first | rest
      · exact first ▸ stored
      · exact absurd (List.mem_map.mpr ⟨owner, rest, ownerIdx⟩) fresh
  · rw [List.getElem?_set_ne here, sound.slots]
    simp only [List.mem_cons, exists_eq_or_imp, same, here, false_and, false_or]

theorem store (sound : Sound inner (ref :: live)) {ptr : Nat} (loaded : ref.ptr = some ptr) :
    ref.store inner = (.ok (), { ref with ptr := none }, { inner with
      storedCount := inner.storedCount + 1, set := inner.set.set ref.idx (some ptr) }) ∧
    Sound { inner with storedCount := inner.storedCount + 1, set := inner.set.set ref.idx (some ptr) }
      ({ ref with ptr := none } :: live) := by
  have empty := sound.slot_loaded (by simp [loaded])
  refine ⟨by simp [RootRefRaw.store, loaded, empty], ?_⟩
  constructor
  case exist => exact sound.exist
  case stored => simp [sound.stored, loaded]
  case distinct => exact sound.distinct
  case sized => simpa using sound.sized
  case used => exact sound.used
  case slots => exact sound.slots_set rfl (by simp)

theorem load (build : Build) (sound : Sound inner (ref :: live)) {ptr : Nat} (stored : ref.ptr = none)
    (slot : inner.set[ref.idx]? = some (some ptr)) :
    ref.load build inner = (.ok (), { ref with ptr := some ptr }, { inner with
      storedCount := inner.storedCount - 1, set := inner.set.set ref.idx none }) ∧
    Sound { inner with storedCount := inner.storedCount - 1, set := inner.set.set ref.idx none }
      ({ ref with ptr := some ptr } :: live) := by
  have counted : inner.storedCount = live.countP (·.ptr.isNone) + 1 := by
    simpa [stored] using sound.stored
  refine ⟨by simp [RootRefRaw.load, Build.sub_of_le, counted, slot], ?_⟩
  constructor
  case exist => exact sound.exist
  case stored => simp [counted]
  case distinct => exact sound.distinct
  case sized => simpa using sound.sized
  case used => exact sound.used
  case slots => exact sound.slots_set rfl (by simp)

def dropped (inner : Inner) (ref : RootRefRaw) : Inner where
  set := inner.set.set ref.idx none
  usedMap := inner.usedMap.set ref.idx false
  storedCount := if ref.ptr.isNone then inner.storedCount - 1 else inner.storedCount
  existCount := inner.existCount - 1

theorem dropCounts (build : Build) (sound : Sound inner (ref :: live)) :
    ref.dropCounts build inner = (.ok (), { inner with
      existCount := inner.existCount - 1, storedCount := (dropped inner ref).storedCount }) := by
  have exist : 1 ≤ inner.existCount := by simp [sound.exist]
  by_cases stored : ref.ptr.isNone
  · have counted : 1 ≤ inner.storedCount := by simp [sound.stored, stored]
    simp [RootRefRaw.dropCounts, Build.sub_of_le, exist, counted, stored, dropped]
  · simp [RootRefRaw.dropCounts, Build.sub_of_le, exist, stored, dropped]

theorem drop (build : Build) (sound : Sound inner (ref :: live)) :
    ref.drop build inner = (.ok (), dropped inner ref) ∧ Sound (dropped inner ref) live := by
  have below := sound.idx_lt List.mem_cons_self
  have fresh := (List.nodup_cons.mp sound.distinct).1
  refine ⟨?_, ?_⟩
  · have bit : ref.idx < inner.usedMap.length := sound.sized ▸ below
    simp [RootRefRaw.drop, sound.dropCounts build, below, bit, dropped]
  · constructor
    case exist => simp [dropped, sound.exist]
    case stored => cases stored : ref.ptr <;> simp [dropped, sound.stored, stored]
    case distinct => exact (List.nodup_cons.mp sound.distinct).2
    case sized => simpa [dropped] using sound.sized
    case used =>
      intro idx
      by_cases here : ref.idx = idx
      · subst here
        have bit : ref.idx < inner.usedMap.length := sound.sized ▸ below
        simp only [dropped, List.getElem?_set_self bit, Option.some.injEq, Bool.false_eq_true, false_iff]
        exact fresh
      · rw [dropped, List.getElem?_set_ne here, sound.used, List.map_cons, List.mem_cons]
        simp only [Ne.symm here, false_or]
    case slots =>
      intro idx
      by_cases here : ref.idx = idx
      · subst here
        simp only [dropped, List.getElem?_set_self below, Option.some.injEq, reduceCtorEq, exists_false, false_iff]
        intro ⟨owner, member, same, _⟩
        exact fresh (List.mem_map.mpr ⟨owner, member, same⟩)
      · rw [dropped, List.getElem?_set_ne here, sound.slots]
        simp only [List.mem_cons, exists_eq_or_imp, here, false_and, false_or]

theorem append (sound : Sound inner live) (ptr : Nat) :
    Sound { inner with
        set := inner.set ++ [none], usedMap := inner.usedMap ++ [true], existCount := inner.existCount + 1 }
      (⟨some ptr, inner.set.length⟩ :: live) := by
  have fresh : inner.set.length ∉ live.map (·.idx) := by
    intro member
    have used := (sound.used _).mpr member
    rw [sound.sized, List.getElem?_eq_none (Nat.le_refl _)] at used
    cases used
  constructor
  case exist => simp [sound.exist]
  case stored => simp [sound.stored]
  case distinct => exact List.nodup_cons.mpr ⟨fresh, sound.distinct⟩
  case sized => simp [sound.sized]
  case used =>
    intro idx
    rw [List.map_cons, List.mem_cons, ← sound.used idx, sound.sized, List.getElem?_append]
    split
    · next below => simp only [Nat.ne_of_lt below, false_or]
    · next above =>
        rw [List.getElem?_eq_none (Nat.le_of_not_lt above), List.getElem?_singleton]
        simp only [reduceCtorEq, or_false]
        split <;> simp <;> omega
  case slots =>
    intro idx
    simp only [List.mem_cons, exists_eq_or_imp, reduceCtorEq, and_false, false_or, ← sound.slots idx]
    rw [List.getElem?_append]
    split
    · rfl
    · next above =>
        rw [List.getElem?_eq_none (Nat.le_of_not_lt above), List.getElem?_singleton]
        split <;> simp

theorem reuse (sound : Sound inner live) (ptr : Nat) {freeIndex : Nat}
    (unused : inner.usedMap[freeIndex]? = some false) :
    Sound { inner with usedMap := inner.usedMap.set freeIndex true, existCount := inner.existCount + 1 }
      (⟨some ptr, freeIndex⟩ :: live) := by
  have bit := (List.getElem?_eq_some_iff.mp unused).1
  have fresh : freeIndex ∉ live.map (·.idx) := by
    intro member
    have used := (sound.used _).mpr member
    rw [unused] at used
    cases used
  constructor
  case exist => simp [sound.exist]
  case stored => simp [sound.stored]
  case distinct => exact List.nodup_cons.mpr ⟨fresh, sound.distinct⟩
  case sized => simp [sound.sized]
  case used =>
    intro idx
    by_cases here : freeIndex = idx
    · subst here
      simp [List.getElem?_set_self bit]
    · rw [List.getElem?_set_ne here, sound.used, List.map_cons, List.mem_cons]
      simp only [Ne.symm here, false_or]
  case slots =>
    intro idx
    rw [sound.slots]
    simp

theorem addPtr (sound : Sound inner live) (ptr : Nat) :
    ∃ ref next, inner.addPtr ptr = (.ok ref, next) ∧ ref.ptr = some ptr ∧ Sound next (ref :: live) ∧
      ∀ (idx held : Nat), inner.set[idx]? = some (some held) → next.set[idx]? = some (some held) := by
  cases search : inner.usedMap.findIdx? (· = false) with
  | none =>
      refine ⟨⟨some ptr, inner.set.length⟩, { inner with
        set := inner.set ++ [none], usedMap := inner.usedMap ++ [true], existCount := inner.existCount + 1 },
        by simp only [Inner.addPtr, search], rfl, sound.append ptr, ?_⟩
      intro idx held slot
      rw [List.getElem?_append_left (List.getElem?_eq_some_iff.mp slot).1]
      exact slot
  | some freeIndex =>
      obtain ⟨bit, clear, _⟩ := List.findIdx?_eq_some_iff_getElem.mp search
      have unused : inner.usedMap[freeIndex]? = some false := by
        rw [List.getElem?_eq_getElem bit]
        simpa using clear
      have empty := sound.slot_unused unused
      obtain ⟨below, content⟩ := List.getElem?_eq_some_iff.mp empty
      have same : inner.set.set freeIndex none = inner.set := content ▸ List.set_getElem_self below
      refine ⟨⟨some ptr, freeIndex⟩, { inner with
        usedMap := inner.usedMap.set freeIndex true, existCount := inner.existCount + 1 },
        by simp only [Inner.addPtr, search, empty, same], rfl, sound.reuse ptr unused, ?_⟩
      intro idx held slot
      exact slot

end Sound

end UwUGC.Plus
