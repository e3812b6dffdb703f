import UwUGC.Panic

/-! The roots of one context: slots that hold a pointer or nothing. -/

set_option autoImplicit false

namespace UwUGC

abbrev RootSet := List (Option Nat)

namespace RootSet

def iterPointers (roots : RootSet) : List Nat := roots.filterMap id

def mapPointers (visitor : Nat → Except Panic Nat) : RootSet → Except Panic RootSet
  | [] => .ok []
  | none :: rest => do
      let rest ← mapPointers visitor rest
      .ok (none :: rest)
  | some ptr :: rest => do
      let mapped ← visitor ptr
      let rest ← mapPointers visitor rest
      .ok (some mapped :: rest)

theorem mem_iterPointers {roots : RootSet} {ptr : Nat} : ptr ∈ roots.iterPointers ↔ some ptr ∈ roots := by
  simp [iterPointers]

theorem mapPointers_returns {visitor : Nat → Except Panic Nat} {move : Nat → Nat} {roots : RootSet}
    (visited : ∀ ptr ∈ roots.iterPointers, visitor ptr = .ok (move ptr)) :
    roots.mapPointers visitor = .ok (roots.map (Option.map move)) := by
  induction roots with
  | nil => rfl
  | cons root rest ih =>
      have rested := ih fun ptr member => visited ptr (by
        rw [mem_iterPointers] at member ⊢
        exact List.mem_cons_of_mem _ member)
      cases root with
      | none => simp [mapPointers, rested, bind, Except.bind]
      | some ptr =>
          have first := visited ptr (mem_iterPointers.mpr List.mem_cons_self)
          simp [mapPointers, first, rested, bind, Except.bind]

end RootSet

end UwUGC
