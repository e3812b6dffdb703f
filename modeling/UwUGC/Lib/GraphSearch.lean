import Mathlib.Data.Finset.Card
import Mathlib.Logic.Relation

/-! Depth-first search with an explicit stack. A node may be pushed many times
before it is visited; the roots are pushed one by one, each when the stack has
run empty. -/

set_option autoImplicit false

structure GraphSearch (Node : Type) where
  /-- The roots that are still to be pushed. -/
  pending : List Node
  /-- The top of the stack comes first. -/
  stack : List Node
  /-- The nodes visited, in order. -/
  visited : List Node

namespace GraphSearch

variable {Node : Type}

def start (roots : List Node) : GraphSearch Node := ⟨roots, [], []⟩

def Reachable (children : Node → List Node) (roots : List Node) (node : Node) : Prop :=
  ∃ root ∈ roots, Relation.ReflTransGen (fun parent child => child ∈ children parent) root node

theorem Reachable.child {children : Node → List Node} {roots : List Node} {parent child : Node}
    (reachable : Reachable children roots parent) (member : child ∈ children parent) :
    Reachable children roots child := by
  obtain ⟨root, rooted, path⟩ := reachable
  exact ⟨root, rooted, path.tail member⟩

theorem Reachable.root {children : Node → List Node} {roots : List Node} {root : Node}
    (member : root ∈ roots) : Reachable children roots root :=
  ⟨root, member, .refl⟩

/-- A set that has the roots and is closed under children has all that is reachable. -/
theorem Reachable.closed {children : Node → List Node} {roots : List Node} {node : Node} {inside : Node → Prop}
    (reachable : Reachable children roots node) (rooted : ∀ root ∈ roots, inside root)
    (closed : ∀ parent child, inside parent → child ∈ children parent → inside child) : inside node := by
  obtain ⟨root, member, path⟩ := reachable
  induction path with
  | refl => exact rooted root member
  | tail _ edge ih => exact closed _ _ ih edge

structure Sound (children : Node → List Node) (roots : List Node) (search : GraphSearch Node) : Prop where
  nodup : search.visited.Nodup
  visited : ∀ node ∈ search.visited, Reachable children roots node
  stack : ∀ node ∈ search.stack, Reachable children roots node
  pending : ∀ node ∈ search.pending, node ∈ roots
  rooted : ∀ root ∈ roots, root ∈ search.visited ∨ root ∈ search.stack ∨ root ∈ search.pending
  closed : ∀ parent ∈ search.visited, ∀ child ∈ children parent,
    child ∈ search.visited ∨ child ∈ search.stack

theorem Sound.start (children : Node → List Node) (roots : List Node) :
    Sound children roots (GraphSearch.start roots) where
  nodup := List.nodup_nil
  visited := by simp [GraphSearch.start]
  stack := by simp [GraphSearch.start]
  pending := by simp [GraphSearch.start]
  rooted := fun root member => .inr (.inr member)
  closed := by simp [GraphSearch.start]

variable [DecidableEq Node]

/-- One pop, or the push of the next root. -/
def step (children : Node → List Node) (search : GraphSearch Node) : Option (GraphSearch Node) :=
  match search.stack with
  | node :: rest =>
      if node ∈ search.visited then some { search with stack := rest }
      else some { search with
        stack := (children node).reverse ++ rest
        visited := search.visited ++ [node] }
  | [] =>
      match search.pending with
      | root :: later => some { search with pending := later, stack := [root] }
      | [] => none

def Steps (children : Node → List Node) : GraphSearch Node → GraphSearch Node → Prop :=
  Relation.ReflTransGen fun before next => before.step children = some next

/-- The search of the roots ends after visiting the nodes in this order. -/
def Visits (children : Node → List Node) (roots order : List Node) : Prop :=
  ∃ final, Steps children (start roots) final ∧ final.step children = none ∧ final.visited = order

theorem step_eq_none {children : Node → List Node} {search : GraphSearch Node} :
    search.step children = none ↔ search.stack = [] ∧ search.pending = [] := by
  unfold step
  cases stack : search.stack with
  | nil => cases pending : search.pending <;> simp
  | cons node rest =>
      by_cases seen : node ∈ search.visited <;> simp [seen]

theorem step_cases {children : Node → List Node} {search next : GraphSearch Node}
    (taken : search.step children = some next) :
    (∃ node rest, search.stack = node :: rest ∧ node ∈ search.visited ∧ next = { search with stack := rest }) ∨
    (∃ node rest, search.stack = node :: rest ∧ node ∉ search.visited ∧
      next = { search with stack := (children node).reverse ++ rest, visited := search.visited ++ [node] }) ∨
    (∃ root later, search.stack = [] ∧ search.pending = root :: later ∧
      next = { search with pending := later, stack := [root] }) := by
  unfold step at taken
  cases stack : search.stack with
  | cons node rest =>
      simp only [stack] at taken
      split at taken
      · next seen => exact .inl ⟨node, rest, rfl, seen, (Option.some.inj taken).symm⟩
      · next fresh => exact .inr (.inl ⟨node, rest, rfl, fresh, (Option.some.inj taken).symm⟩)
  | nil =>
      simp only [stack] at taken
      cases pending : search.pending with
      | nil =>
          rw [pending] at taken
          cases taken
      | cons root later =>
          rw [pending] at taken
          exact .inr (.inr ⟨root, later, rfl, rfl, (Option.some.inj taken).symm⟩)

theorem Sound.step {children : Node → List Node} {roots : List Node} {search next : GraphSearch Node}
    (sound : Sound children roots search) (taken : search.step children = some next) :
    Sound children roots next := by
  rcases step_cases taken with ⟨node, rest, stack, seen, rfl⟩ | ⟨node, rest, stack, fresh, rfl⟩ |
    ⟨root, later, stack, pending, rfl⟩
  · refine { sound with stack := ?_, rooted := ?_, closed := ?_ }
    · intro other member
      exact sound.stack other (by simp [stack, member])
    · intro root member
      have placed := sound.rooted root member
      rw [stack, List.mem_cons] at placed
      rcases placed with old | (same | later) | waiting
      · exact .inl old
      · exact .inl (same ▸ seen)
      · exact .inr (.inl later)
      · exact .inr (.inr waiting)
    · intro parent visited child member
      have placed := sound.closed parent visited child member
      rw [stack, List.mem_cons] at placed
      rcases placed with old | same | later
      · exact .inl old
      · exact .inl (same ▸ seen)
      · exact .inr later
  · have top : Reachable children roots node := sound.stack node (by simp [stack])
    constructor
    case nodup =>
      simp only [List.nodup_append, List.nodup_cons, List.not_mem_nil, not_false_eq_true,
        List.nodup_nil, and_true, List.mem_singleton, ne_eq, forall_eq, true_and]
      refine ⟨sound.nodup, ?_⟩
      intro other member same
      exact fresh (same ▸ member)
    case visited =>
      intro other member
      rcases List.mem_append.mp member with old | new
      · exact sound.visited other old
      · rw [List.mem_singleton.mp new]
        exact top
    case stack =>
      intro other member
      rcases List.mem_append.mp member with new | old
      · exact top.child (List.mem_reverse.mp new)
      · exact sound.stack other (by simp [stack, old])
    case pending => exact sound.pending
    case rooted =>
      intro root member
      have placed := sound.rooted root member
      rw [stack, List.mem_cons] at placed
      rcases placed with old | (same | later) | waiting
      · exact .inl (List.mem_append_left _ old)
      · exact .inl (List.mem_append_right _ (by simp [same]))
      · exact .inr (.inl (List.mem_append_right _ later))
      · exact .inr (.inr waiting)
    case closed =>
      intro parent visited child member
      rcases List.mem_append.mp visited with old | new
      · have placed := sound.closed parent old child member
        rw [stack, List.mem_cons] at placed
        rcases placed with seen | same | later
        · exact .inl (List.mem_append_left _ seen)
        · exact .inl (List.mem_append_right _ (by simp [same]))
        · exact .inr (List.mem_append_right _ later)
      · rw [List.mem_singleton.mp new] at member
        exact .inr (List.mem_append_left _ (List.mem_reverse.mpr member))
  · refine { sound with stack := ?_, pending := ?_, rooted := ?_, closed := ?_ }
    · intro node member
      rw [List.mem_singleton.mp member]
      exact .root (sound.pending root (by simp [pending]))
    · intro node member
      exact sound.pending node (by simp [pending, member])
    · intro other member
      have placed := sound.rooted other member
      rw [stack, pending] at placed
      simp only [List.not_mem_nil, false_or, List.mem_cons] at placed
      rcases placed with old | same | waiting
      · exact .inl old
      · exact .inr (.inl (by simp [same]))
      · exact .inr (.inr waiting)
    · intro parent visited child member
      have placed := sound.closed parent visited child member
      rw [stack] at placed
      rcases placed with old | none
      · exact .inl old
      · cases none

/-- The order of the nodes visited only grows at its end. -/
theorem Steps.visited_prefix {children : Node → List Node} {search final : GraphSearch Node}
    (ran : Steps children search final) : search.visited <+: final.visited := by
  induction ran with
  | refl => exact List.prefix_rfl
  | tail _ taken ih =>
      rcases step_cases taken with ⟨_, _, _, _, rfl⟩ | ⟨_, _, _, _, rfl⟩ | ⟨_, _, _, _, rfl⟩
      · exact ih
      · exact ih.trans (List.prefix_append _ _)
      · exact ih

theorem Sound.steps {children : Node → List Node} {roots : List Node} {search final : GraphSearch Node}
    (sound : Sound children roots search) (ran : Steps children search final) : Sound children roots final := by
  induction ran with
  | refl => exact sound
  | tail _ taken ih => exact ih.step taken

/-- A search that ends has visited what is reachable, each node once. -/
theorem Visits.exact {children : Node → List Node} {roots order : List Node}
    (visits : Visits children roots order) :
    order.Nodup ∧ ∀ node, node ∈ order ↔ Reachable children roots node := by
  obtain ⟨final, ran, ended, rfl⟩ := visits
  have sound := (Sound.start children roots).steps ran
  obtain ⟨stack, pending⟩ := step_eq_none.mp ended
  refine ⟨sound.nodup, fun node => ⟨sound.visited node, fun reachable => ?_⟩⟩
  apply reachable.closed
  · intro root member
    have placed := sound.rooted root member
    rw [stack, pending] at placed
    simpa using placed
  · intro parent child visited member
    have placed := sound.closed parent visited child member
    rw [stack] at placed
    simpa using placed

/-- Over finitely many nodes the search ends: a visit leaves fewer nodes to visit, and
any other step a shorter stack or fewer roots. -/
theorem ends_from {children : Node → List Node} {roots : List Node} {nodes : Finset Node}
    (covered : ∀ node, Reachable children roots node → node ∈ nodes) (unvisited weight : Nat)
    {search : GraphSearch Node} (sound : Sound children roots search)
    (left : (nodes.filter fun node => node ∉ search.visited).card = unvisited)
    (weighs : search.stack.length + 2 * search.pending.length = weight) :
    ∃ final, Steps children search final ∧ final.step children = none := by
  induction unvisited using Nat.strong_induction_on generalizing search weight with
  | _ unvisited fewer =>
      induction weight using Nat.strong_induction_on generalizing search with
      | _ weight lighter =>
          cases taken : search.step children with
          | none => exact ⟨search, .refl, taken⟩
          | some next =>
              suffices later : ∃ final, Steps children next final ∧ final.step children = none by
                obtain ⟨final, ran, ended⟩ := later
                exact ⟨final, .head taken ran, ended⟩
              have kept := sound.step taken
              rcases step_cases taken with ⟨node, rest, stack, _, rfl⟩ | ⟨node, rest, stack, fresh, rfl⟩ |
                ⟨root, later, stack, pending, rfl⟩
              · refine lighter _ ?_ kept left rfl
                simp only [stack, List.length_cons] at weighs
                simp only
                omega
              · refine fewer _ ?_ _ kept rfl rfl
                rw [← left]
                apply Finset.card_lt_card
                constructor
                · intro other member
                  simp only [Finset.mem_filter, List.mem_append, not_or] at member ⊢
                  exact ⟨member.1, member.2.1⟩
                · intro subset
                  have inside := covered node (sound.stack node (by simp [stack]))
                  have member := subset (Finset.mem_filter.mpr ⟨inside, fresh⟩)
                  simp at member
              · refine lighter _ ?_ kept left rfl
                simp only [stack, pending, List.length_nil, List.length_cons] at weighs
                simp only [List.length_cons, List.length_nil]
                omega

/-- The search is a function of the graph, and so is its order. -/
theorem Visits.unique {children : Node → List Node} {roots order other : List Node}
    (visits : Visits children roots order) (others : Visits children roots other) : order = other := by
  obtain ⟨final, ran, ended, rfl⟩ := visits
  obtain ⟨last, ran', ended', rfl⟩ := others
  have functional : Relator.RightUnique fun before next : GraphSearch Node => before.step children = some next := by
    intro before next other taken taken'
    exact Option.some.inj (taken.symm.trans taken')
  have stuck {search next : GraphSearch Node} (ended : search.step children = none) (ran : Steps children search next) :
      next = search := by
    cases Relation.ReflTransGen.cases_head ran with
    | inl same => exact same.symm
    | inr further =>
        obtain ⟨_, taken, _⟩ := further
        rw [ended] at taken
        cases taken
  rcases Relation.ReflTransGen.total_of_right_unique functional ran ran' with further | further
  · rw [stuck ended further]
  · rw [stuck ended' further]

/-- Roots that lead nowhere are visited as they come. -/
theorem visits_leaves {children : Node → List Node} {roots : List Node} (nodup : roots.Nodup)
    (leaves : ∀ root ∈ roots, children root = []) : Visits children roots roots := by
  have walked (seen : List Node) (later : List Node) (fresh : ∀ root ∈ later, root ∉ seen) (apart : later.Nodup)
      (leaves : ∀ root ∈ later, children root = []) : Steps children ⟨later, [], seen⟩ ⟨[], [], seen ++ later⟩ := by
    induction later generalizing seen with
    | nil =>
        rw [List.append_nil]
        exact .refl
    | cons root rest ih =>
        obtain ⟨different, restApart⟩ := List.nodup_cons.mp apart
        have unseen := fresh root List.mem_cons_self
        have rested := ih (seen ++ [root]) (by
          intro other member
          rw [List.mem_append, not_or, List.mem_singleton]
          exact ⟨fresh other (List.mem_cons_of_mem _ member), fun same => different (same ▸ member)⟩) restApart
          fun other member => leaves other (List.mem_cons_of_mem _ member)
        rw [List.append_assoc, List.singleton_append] at rested
        refine .head rfl (.head ?_ rested)
        simp [step, unseen, leaves root List.mem_cons_self]
  exact ⟨_, walked [] roots (by simp) nodup leaves, rfl, rfl⟩

theorem visits_exists {children : Node → List Node} {roots : List Node} {nodes : Finset Node}
    (covered : ∀ node, Reachable children roots node → node ∈ nodes) :
    ∃ order, Visits children roots order := by
  obtain ⟨final, ran, ended⟩ := ends_from covered _ _ (Sound.start children roots) rfl rfl
  exact ⟨final.visited, final, ran, ended, rfl⟩

end GraphSearch
