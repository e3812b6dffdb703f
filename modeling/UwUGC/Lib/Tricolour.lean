import UwUGC.Lib.GraphSearch

/-! Marking a graph that changes meanwhile. A node is white until it is marked, and the grey
nodes are what the search still comes to. A white node is safe while some path through white
nodes leads to it from a grey one. -/

set_option autoImplicit false

structure Tricolour (Node : Type) where
  children : Node → List Node
  marked : Node → Prop
  grey : List Node

namespace Tricolour

variable {Node : Type}

/-- A marked node, or one that the search comes to if nothing changes before. -/
inductive Covered (colours : Tricolour Node) : Node → Prop where
  | marked {node : Node} (marked : colours.marked node) : Covered colours node
  | grey {node : Node} (grey : node ∈ colours.grey) : Covered colours node
  | child {parent node : Node} (covered : Covered colours parent) (white : ¬ colours.marked parent)
      (pointed : node ∈ colours.children parent) : Covered colours node

/-- Whatever the roots reach is covered. -/
def Tracks (colours : Tricolour Node) (roots : List Node) : Prop :=
  ∀ node, GraphSearch.Reachable colours.children roots node → colours.Covered node

variable {colours later : Tricolour Node} {roots next : List Node} {node : Node}

theorem Covered.white_inside (covered : colours.Covered node) {inside : Node → Prop} (white : ¬ colours.marked node)
    (grey : ∀ node ∈ colours.grey, inside node)
    (children : ∀ parent, inside parent → ∀ node ∈ colours.children parent, inside node) : inside node := by
  induction covered with
  | marked isMarked => exact absurd isMarked white
  | grey isGrey => exact grey _ isGrey
  | child _ whiteParent pointed ih => exact children _ (ih whiteParent) _ pointed

/-- What a step has to leave of the nodes inside, from where the search does not get out: a
marked or a grey node is covered, and so is the child of a white one, unless the edge is
still there and its parent still white. -/
structure Keeps (inside : Node → Prop) (colours later : Tricolour Node) : Prop where
  greyInside : ∀ node ∈ colours.grey, inside node
  closed : ∀ parent, inside parent → ∀ node ∈ colours.children parent, inside node
  marked : ∀ node, inside node → colours.marked node → later.Covered node
  grey : ∀ node ∈ colours.grey, later.Covered node
  edges : ∀ parent, inside parent → ¬ colours.marked parent → ∀ node ∈ colours.children parent,
    later.Covered node ∨ ¬ later.marked parent ∧ node ∈ later.children parent

variable {inside : Node → Prop}

theorem Keeps.covered (keeps : Keeps inside colours later) (member : inside node) (covered : colours.Covered node) :
    later.Covered node := by
  induction covered with
  | marked isMarked => exact keeps.marked _ member isMarked
  | grey isGrey => exact keeps.grey _ isGrey
  | child before white pointed ih =>
      have parentInside := before.white_inside white keeps.greyInside keeps.closed
      rcases keeps.edges _ parentInside white _ pointed with still | ⟨stillWhite, stillPointed⟩
      · exact still
      · exact .child (ih parentInside) stillWhite stillPointed

/-- The rule for a step after which the roots reach no more than before, but for what is covered. -/
theorem Tracks.keeps (tracks : colours.Tracks roots) (keeps : Keeps inside colours later)
    (reached : ∀ node, GraphSearch.Reachable later.children next node →
      inside node ∧ GraphSearch.Reachable colours.children roots node ∨ later.Covered node) : later.Tracks next := by
  intro node reachable
  rcases reached node reachable with ⟨member, before⟩ | covered
  · exact keeps.covered member (tracks node before)
  · exact covered

/-- A search starts with its roots grey, and all that they reach white. -/
theorem Tracks.start (grey : ∀ root ∈ roots, root ∈ colours.grey)
    (white : ∀ node, GraphSearch.Reachable colours.children roots node → ¬ colours.marked node) :
    colours.Tracks roots := by
  rintro node ⟨root, member, path⟩
  induction path with
  | refl => exact .grey (grey root member)
  | tail before pointed ih => exact .child ih (white _ ⟨root, member, before⟩) pointed

theorem Covered.finished (covered : colours.Covered node) (done : colours.grey = []) : colours.marked node := by
  induction covered with
  | marked isMarked => exact isMarked
  | grey isGrey =>
      rw [done] at isGrey
      cases isGrey
  | child _ white _ ih => exact absurd ih white

end Tricolour
