import UwUGC.Lib.Tricolour
import UwUGC.State.MutatorSteps

/-! The marker while mutators run. It goes by the roots of step 1, and nothing tells it of a
pointer that was overwritten since. -/

set_option autoImplicit false

namespace UwUGC

open Gc

namespace Gc.Marking

/-- What the marker still comes to: the object in hand, the stack, and the roots that are left. -/
def grey (marking : Marking) : List Nat :=
  (match marking.inHand with
    | none => []
    | some (.popped obj) => [obj]
    | some (.marked obj) => [obj]) ++ (marking.markStack ++ marking.roots)

variable {Types : Type} (manager : TypeManager Types) (types : Types)

/-- An object is done when it is marked, unless it is still to be scanned. -/
def colours (bit : Bit) (memory : Memory) (marking : Marking) : Tricolour Nat where
  children := manager.children types memory
  marked obj := (memory.metadata obj).isMarked = bit ∧ marking.inHand ≠ some (.marked obj)
  grey := marking.grey

/-- A step that reads the memory only, and scans nothing. -/
structure Moved (bit : Bit) (memory : Memory) (marking later : Marking) : Prop where
  registry : later.registry = marking.registry
  before : ∀ obj, marking.inHand ≠ some (.marked obj)
  behind : ∀ obj, later.inHand ≠ some (.marked obj)
  fewer : ∀ obj ∈ later.grey, obj ∈ marking.grey
  greys : ∀ obj ∈ marking.grey, obj ∈ later.grey ∨ (memory.metadata obj).isMarked = bit

variable {manager types}

theorem step_moves {heap : HeapInfo} {bit : Bit} {memory after : Memory} {marking later : Marking}
    (stepped : marking.step manager types heap bit memory = .ok (some (after, later))) :
    (after = memory ∧ marking.Moved bit memory later) ∨
    (∃ obj, marking.inHand = some (.popped obj) ∧ (memory.metadata obj).isMarked ≠ bit ∧
      after = memory.setMarked obj bit ∧ later = { marking with inHand := some (.marked obj) }) ∨
    ∃ obj, marking.inHand = some (.marked obj) ∧ after = memory ∧ marking.scan manager types heap memory obj = .ok later := by
  rcases step_cases stepped with ⟨obj, inHand, marked⟩ | ⟨obj, inHand, rfl, scanned⟩ |
    ⟨obj, rest, idle, stack, rfl, rfl⟩ | ⟨root, rest, idle, stack, roots, rfl, rfl⟩
  · by_cases seen : (memory.metadata obj).isMarked = bit
    · rw [mark_seen seen] at marked
      obtain ⟨rfl, rfl⟩ := Prod.mk.inj marked
      refine .inl ⟨rfl, rfl, ?_, ?_, ?_, ?_⟩
      · simp [inHand]
      · simp
      · intro other isGrey
        simp only [grey, inHand, List.nil_append] at isGrey ⊢
        exact List.mem_append_right _ isGrey
      · intro other isGrey
        simp only [grey, inHand, List.mem_append, List.mem_singleton, List.nil_append] at isGrey ⊢
        rcases isGrey with rfl | still
        · exact .inr seen
        · exact .inl still
    · rw [mark_fresh seen] at marked
      obtain ⟨rfl, rfl⟩ := Prod.mk.inj marked
      exact .inr (.inl ⟨obj, inHand, seen, rfl, rfl⟩)
  · exact .inr (.inr ⟨obj, inHand, rfl, scanned⟩)
  · refine .inl ⟨rfl, rfl, ?_, ?_, ?_, ?_⟩
    · simp [idle]
    · simp
    · intro other isGrey
      simpa [grey, idle, stack] using isGrey
    · intro other isGrey
      left
      simpa [grey, idle, stack] using isGrey
  · refine .inl ⟨rfl, rfl, ?_, ?_, ?_, ?_⟩
    · simp [idle]
    · simp [idle]
    · intro other isGrey
      simpa [grey, idle, stack, roots] using isGrey
    · intro other isGrey
      left
      simpa [grey, idle, stack, roots] using isGrey

end Gc.Marking

namespace State.System

variable {Types Request Thread : Type} {manager : TypeManager Types} {types : Types} {state next : System Types Thread}
  {heap : HeapInfo} {bit : Bit} {marking later : Marking} {memory after : Memory} {objects done : List Nat} {mm : PageTable}

/-- In a page that was opened since step 1. -/
def InNewPage (heap : HeapInfo) (mm : PageTable) (obj : Nat) : Prop :=
  ∃ idx page, heap.usedEndPage ≤ idx ∧ mm.slot idx = some page ∧ page.usedRange.Contains obj

/-- What the marker has recorded: the objects that are done, each once. -/
structure Book (manager : TypeManager Types) (types : Types) (heap : HeapInfo) (bit : Bit) (memory : Memory)
    (marking : Marking) (objects done : List Nat) : Prop where
  nodup : done.Nodup
  members : ∀ obj ∈ done, obj ∈ objects
  marked : ∀ obj ∈ done, (memory.metadata obj).isMarked = bit ∧ marking.inHand ≠ some (.marked obj)
  above : ∀ obj ∈ done, heap.start ≤ obj
  sources : marking.registry.data.recordsSortedBySrc.map (fun record => (record.src, record.size)) =
    done.map fun obj => (obj - heap.start, manager.sizeOf types memory obj)

/-- What is true of every object while the marker runs, whatever the mutators overwrite. -/
structure Marks (manager : TypeManager Types) (state : System Types Thread) (heap : HeapInfo) (bit : Bit)
    (marking : Marking) (objects done : List Nat) : Prop where
  phase : state.phase = .marking heap bit marking
  flipped : state.shared.markTrueBit = bit.not
  nonnull : heap.toSpace ≠ 0
  live : Live manager state objects
  grey : ∀ obj ∈ marking.grey, obj ∈ objects
  inHand : ∀ obj, marking.inHand = some (.marked obj) → (state.memory.metadata obj).isMarked = bit
  book : Book manager state.shared.types heap bit state.memory marking objects done

/-- A marked object that is not recorded is in hand, or was born marked in a new page. -/
def Accounts (bit : Bit) (memory : Memory) (heap : HeapInfo) (marking : Marking) (mm : PageTable)
    (objects done : List Nat) : Prop :=
  ∀ obj ∈ objects, (memory.metadata obj).isMarked = bit →
    obj ∈ done ∨ marking.inHand = some (.marked obj) ∨ InNewPage heap mm obj

/-- Nothing that is reached is hidden from the marker, and nothing that it has marked is left out. -/
structure Sees (manager : TypeManager Types) (state : System Types Thread) (heap : HeapInfo) (bit : Bit)
    (marking : Marking) (objects done : List Nat) : Prop where
  marks : Marks manager state heap bit marking objects done
  tracks : (marking.colours manager state.shared.types bit state.memory).Tracks state.shared.contexts.pointers
  accounts : Accounts bit state.memory heap marking state.shared.mm objects done

theorem Book.frame (book : Book manager types heap bit memory marking objects done)
    (marks : ∀ obj ∈ objects, (after.metadata obj).isMarked = (memory.metadata obj).isMarked)
    (sizes : ∀ obj ∈ objects, manager.sizeOf types after obj = manager.sizeOf types memory obj) :
    Book manager types heap bit after marking objects done where
  nodup := book.nodup
  members := book.members
  marked := by
    intro obj member
    rw [marks obj (book.members obj member)]
    exact book.marked obj member
  above := book.above
  sources := by
    rw [book.sources]
    apply List.map_congr_left
    intro obj member
    rw [sizes obj (book.members obj member)]

theorem Accounts.frame (accounts : Accounts bit memory heap marking mm objects done) {table : PageTable}
    (marks : ∀ obj ∈ objects, (after.metadata obj).isMarked = (memory.metadata obj).isMarked)
    (pages : ∀ obj, InNewPage heap mm obj → InNewPage heap table obj) :
    Accounts bit after heap marking table objects done := by
  intro obj member isMarked
  rw [marks obj member] at isMarked
  rcases accounts obj member isMarked with recorded | inHand | inPage
  · exact .inl recorded
  · exact .inr (.inl inHand)
  · exact .inr (.inr (pages obj inPage))

/-- Nothing is unmarked, nothing grey is left out, and what is scanned has its children grey. -/
theorem colours_keep (closed : ∀ obj ∈ objects, ∀ child ∈ manager.children types memory obj, child ∈ objects)
    (grey : ∀ obj ∈ marking.grey, obj ∈ objects)
    (children : ∀ obj ∈ objects, manager.children types after obj = manager.children types memory obj)
    (marked : ∀ obj ∈ objects, (marking.colours manager types bit memory).marked obj →
      (later.colours manager types bit after).marked obj)
    (greys : ∀ obj ∈ marking.grey, obj ∈ later.grey ∨ (later.colours manager types bit after).marked obj)
    (scanned : ∀ obj ∈ objects, ¬ (marking.colours manager types bit memory).marked obj →
      (later.colours manager types bit after).marked obj → ∀ child ∈ manager.children types memory obj, child ∈ later.grey) :
    Tricolour.Keeps (· ∈ objects) (marking.colours manager types bit memory)
      (later.colours manager types bit after) where
  greyInside := grey
  closed := closed
  marked := fun obj member isMarked => .marked (marked obj member isMarked)
  grey := by
    intro obj isGrey
    rcases greys obj isGrey with still | isMarked
    · exact .grey still
    · exact .marked isMarked
  edges := by
    intro parent member white child pointed
    by_cases isMarked : (later.colours manager types bit after).marked parent
    · exact .inl (.grey (scanned parent member white isMarked child pointed))
    · right
      refine ⟨isMarked, ?_⟩
      change child ∈ manager.children types after parent
      rw [children parent member]
      exact pointed

theorem Book.moved (book : Book manager types heap bit memory marking objects done) (moved : marking.Moved bit memory later) :
    Book manager types heap bit memory later objects done where
  nodup := book.nodup
  members := book.members
  marked := fun obj member => ⟨(book.marked obj member).1, moved.behind obj⟩
  above := book.above
  sources := moved.registry ▸ book.sources

theorem sameBodies_refl (memory : Memory) (objects : List Nat) : manager.SameBodies types memory memory objects :=
  fun _ _ => ⟨rfl, fun _ _ => rfl⟩

section Marker

variable (marks : Marks manager state heap bit marking objects done)

include marks

theorem Marks.marker (bodies : manager.SameBodies state.shared.types state.memory after objects)
    (grey : ∀ obj ∈ later.grey, obj ∈ objects)
    (inHand : ∀ obj, later.inHand = some (.marked obj) → (after.metadata obj).isMarked = bit)
    {recorded : List Nat} (book : Book manager state.shared.types heap bit after later objects recorded) :
    Marks manager { state with memory := after, phase := .marking heap bit later } heap bit later objects recorded := by
  obtain ⟨live, _⟩ := marks.live.sameBodies bodies (.marking heap bit later)
  exact ⟨rfl, marks.flipped, marks.nonnull, live, grey, inHand, book⟩

theorem Marks.moved (moved : marking.Moved bit state.memory later) :
    Marks manager { state with phase := .marking heap bit later } heap bit later objects done := by
  refine marks.marker (sameBodies_refl _ _) ?_ ?_ (marks.book.moved moved)
  · exact fun obj member => marks.grey obj (moved.fewer obj member)
  · exact fun obj inHand => absurd inHand (moved.behind obj)

theorem Marks.inHand_mem {obj : Nat} (inHand : marking.inHand = some (.popped obj) ∨ marking.inHand = some (.marked obj)) :
    obj ∈ objects := by
  apply marks.grey
  rcases inHand with inHand | inHand <;> simp [Marking.grey, inHand]

theorem Marks.others_unmarked {obj other : Nat} (inHand : marking.inHand = some (.popped obj)) (member : other ∈ objects)
    (different : other ≠ obj) : (state.memory.setMarked obj bit).metadata other = state.memory.metadata other :=
  marks.live.heap.metadata_setMarked_of_ne (marks.inHand_mem (.inl inHand)) member different bit

theorem Marks.marked {obj : Nat} (inHand : marking.inHand = some (.popped obj))
    (unmarked : (state.memory.metadata obj).isMarked ≠ bit) :
    Marks manager { state with
      memory := state.memory.setMarked obj bit
      phase := .marking heap bit { marking with inHand := some (.marked obj) } } heap bit
        { marking with inHand := some (.marked obj) } objects done := by
  have bodies := marks.live.heap.setMarked (marks.inHand_mem (.inl inHand)) bit
  refine marks.marker bodies ?_ ?_ ?_
  · have same : Marking.grey { marking with inHand := some (.marked obj) } = marking.grey := by
      simp [Marking.grey, inHand]
    rw [same]
    exact marks.grey
  · intro other held
    cases held
    rw [Memory.metadata_setMarked]
  · constructor
    case nodup => exact marks.book.nodup
    case members => exact marks.book.members
    case above => exact marks.book.above
    case marked =>
      intro other recorded
      have isMarked := (marks.book.marked other recorded).1
      have different : other ≠ obj := fun same => unmarked (same ▸ isMarked)
      constructor
      · rw [marks.others_unmarked inHand (marks.book.members other recorded) different]
        exact isMarked
      · intro held
        cases held
        exact different rfl
    case sources =>
      rw [marks.book.sources]
      apply List.map_congr_left
      intro other recorded
      rw [marks.live.heap.same_size bodies (marks.book.members other recorded)]

theorem Marks.scanned {obj : Nat} (inHand : marking.inHand = some (.marked obj))
    (scanned : marking.scan manager state.shared.types heap state.memory obj = .ok later) :
    Marks manager { state with phase := .marking heap bit later } heap bit later objects (done ++ [obj]) := by
  have member := marks.inHand_mem (.inr inHand)
  obtain ⟨size, ptr, idx, moveContext, pageTable, pointed, sized, _, above, _, walked, rfl⟩ := Marking.scan_eq_ok.mp scanned
  have children : manager.children state.shared.types state.memory obj = pointed := by
    rw [TypeManager.children, walked]
  have length : manager.sizeOf state.shared.types state.memory obj = size := by
    rw [TypeManager.sizeOf, sized]
  refine marks.marker (sameBodies_refl _ _) ?_ ?_ ?_
  · intro other isGrey
    simp only [Marking.grey, Marking.scanned, List.nil_append, List.mem_append, List.mem_reverse] at isGrey
    rcases isGrey with (child | stack) | root
    · exact marks.live.heap.closed obj member other (children ▸ child)
    · exact marks.grey other (by simp [Marking.grey, stack])
    · exact marks.grey other (by simp [Marking.grey, root])
  · intro other held
    cases held
  · constructor
    case nodup =>
      refine List.nodup_append.mpr ⟨marks.book.nodup, List.nodup_singleton _, ?_⟩
      rintro left recorded right there rfl
      exact (marks.book.marked left recorded).2 (List.mem_singleton.mp there ▸ inHand)
    case members =>
      intro other recorded
      rcases List.mem_append.mp recorded with old | new
      · exact marks.book.members other old
      · exact List.mem_singleton.mp new ▸ member
    case marked =>
      intro other recorded
      refine ⟨?_, (Option.some_ne_none _).symm⟩
      rcases List.mem_append.mp recorded with old | new
      · exact (marks.book.marked other old).1
      · exact List.mem_singleton.mp new ▸ marks.inHand obj inHand
    case above =>
      intro other recorded
      rcases List.mem_append.mp recorded with old | new
      · exact marks.book.above other old
      · exact List.mem_singleton.mp new ▸ above
    case sources =>
      simp only [Marking.scanned, RegistryBuilder.insert, List.map_append, marks.book.sources, List.map_cons, List.map_nil,
        length]

theorem Marks.keeps_moved (moved : marking.Moved bit state.memory later) :
    Tricolour.Keeps (· ∈ objects) (marking.colours manager state.shared.types bit state.memory)
      (later.colours manager state.shared.types bit state.memory) := by
  refine colours_keep marks.live.heap.closed marks.grey (fun _ _ => rfl) ?_ ?_ ?_
  · exact fun obj _ isMarked => ⟨isMarked.1, moved.behind obj⟩
  · intro obj isGrey
    rcases moved.greys obj isGrey with still | isMarked
    · exact .inl still
    · exact .inr ⟨isMarked, moved.behind obj⟩
  · exact fun obj _ white isMarked => absurd ⟨isMarked.1, moved.before obj⟩ white

theorem Marks.keeps_marked {obj : Nat} (inHand : marking.inHand = some (.popped obj))
    (unmarked : (state.memory.metadata obj).isMarked ≠ bit) :
    Tricolour.Keeps (· ∈ objects) (marking.colours manager state.shared.types bit state.memory)
      (({ marking with inHand := some (.marked obj) } : Marking).colours manager state.shared.types bit
        (state.memory.setMarked obj bit)) := by
  have bodies := marks.live.heap.setMarked (marks.inHand_mem (.inl inHand)) bit
  refine colours_keep marks.live.heap.closed marks.grey (fun other => marks.live.heap.same_children bodies) ?_ ?_ ?_
  · rintro other otherMember ⟨isMarked, _⟩
    have different : other ≠ obj := fun same => unmarked (same ▸ isMarked)
    constructor
    · rw [marks.others_unmarked inHand otherMember different]
      exact isMarked
    · intro held
      cases held
      exact different rfl
  · intro other isGrey
    left
    simpa [Marking.grey, inHand] using isGrey
  · rintro other otherMember white ⟨isMarked, held⟩
    have different : other ≠ obj := by
      rintro rfl
      exact held rfl
    rw [marks.others_unmarked inHand otherMember different] at isMarked
    refine absurd ⟨isMarked, ?_⟩ white
    rw [inHand]
    intro impossible
    cases impossible

theorem Marks.keeps_scanned {obj : Nat} (inHand : marking.inHand = some (.marked obj))
    (scanned : marking.scan manager state.shared.types heap state.memory obj = .ok later) :
    Tricolour.Keeps (· ∈ objects) (marking.colours manager state.shared.types bit state.memory)
      (later.colours manager state.shared.types bit state.memory) := by
  have isMarked := marks.inHand obj inHand
  obtain ⟨size, ptr, idx, moveContext, pageTable, pointed, _, _, _, _, walked, rfl⟩ := Marking.scan_eq_ok.mp scanned
  have children : manager.children state.shared.types state.memory obj = pointed := by
    rw [TypeManager.children, walked]
  refine colours_keep marks.live.heap.closed marks.grey (fun _ _ => rfl) ?_ ?_ ?_
  · rintro other _ ⟨marked, _⟩
    exact ⟨marked, (Option.some_ne_none _).symm⟩
  · intro other isGrey
    simp only [Marking.grey, inHand, List.mem_append, List.mem_singleton] at isGrey
    rcases isGrey with rfl | stack | root
    · exact .inr ⟨isMarked, (Option.some_ne_none _).symm⟩
    · exact .inl (by simp [Marking.grey, Marking.scanned, stack])
    · exact .inl (by simp [Marking.grey, Marking.scanned, root])
  · rintro other _ white ⟨marked, _⟩ child childPointed
    have same : other = obj := by
      by_contra different
      refine white ⟨marked, ?_⟩
      rw [inHand]
      intro held
      cases held
      exact different rfl
    rw [same, children] at childPointed
    simp [Marking.grey, Marking.scanned, childPointed]

/-- Whatever the marker came to before a step, it comes to behind it. -/
theorem Marks.keeps_step (stepped : marking.step manager state.shared.types heap bit state.memory = .ok (some (after, later))) :
    Tricolour.Keeps (· ∈ objects) (marking.colours manager state.shared.types bit state.memory)
      (later.colours manager state.shared.types bit after) := by
  rcases Marking.step_moves stepped with ⟨rfl, moved⟩ | ⟨obj, inHand, unmarked, rfl, rfl⟩ | ⟨obj, inHand, rfl, scanned⟩
  · exact marks.keeps_moved moved
  · exact marks.keeps_marked inHand unmarked
  · exact marks.keeps_scanned inHand scanned

end Marker

section Sees

variable (sees : Sees manager state heap bit marking objects done)

include sees

theorem Sees.marker (bodies : manager.SameBodies state.shared.types state.memory after objects) {recorded : List Nat}
    (marks : Marks manager { state with memory := after, phase := .marking heap bit later } heap bit later objects recorded)
    (keeps : Tricolour.Keeps (· ∈ objects) (marking.colours manager state.shared.types bit state.memory)
      (later.colours manager state.shared.types bit after))
    (accounts : Accounts bit after heap later state.shared.mm objects recorded) :
    Sees manager { state with memory := after, phase := .marking heap bit later } heap bit later objects recorded := by
  obtain ⟨_, fewer⟩ := sees.marks.live.sameBodies bodies (.marking heap bit later)
  refine ⟨marks, sees.tracks.keeps keeps ?_, accounts⟩
  intro obj reached
  have before := fewer obj reached
  exact .inl ⟨sees.marks.live.reached_mem before, before⟩

theorem Sees.moved (moved : marking.Moved bit state.memory later) :
    Sees manager { state with phase := .marking heap bit later } heap bit later objects done := by
  refine sees.marker (sameBodies_refl _ _) (sees.marks.moved moved) (sees.marks.keeps_moved moved) ?_
  intro obj member isMarked
  rcases sees.accounts obj member isMarked with recorded | inHand | inPage
  · exact .inl recorded
  · exact absurd inHand (moved.before obj)
  · exact .inr (.inr inPage)

theorem Sees.marked {obj : Nat} (inHand : marking.inHand = some (.popped obj))
    (unmarked : (state.memory.metadata obj).isMarked ≠ bit) :
    Sees manager { state with
      memory := state.memory.setMarked obj bit
      phase := .marking heap bit { marking with inHand := some (.marked obj) } } heap bit
        { marking with inHand := some (.marked obj) } objects done := by
  have marks := sees.marks
  have bodies := marks.live.heap.setMarked (marks.inHand_mem (.inl inHand)) bit
  refine sees.marker bodies (marks.marked inHand unmarked) (marks.keeps_marked inHand unmarked) ?_
  intro other otherMember isMarked
  by_cases same : other = obj
  · exact .inr (.inl (by rw [same]))
  · rw [marks.others_unmarked inHand otherMember same] at isMarked
    rcases sees.accounts other otherMember isMarked with recorded | held | inPage
    · exact .inl recorded
    · rw [inHand] at held
      cases held
    · exact .inr (.inr inPage)

theorem Sees.scanned {obj : Nat} (inHand : marking.inHand = some (.marked obj))
    (scanned : marking.scan manager state.shared.types heap state.memory obj = .ok later) :
    Sees manager { state with phase := .marking heap bit later } heap bit later objects (done ++ [obj]) := by
  have marks := sees.marks
  refine sees.marker (sameBodies_refl _ _) (marks.scanned inHand scanned) (marks.keeps_scanned inHand scanned) ?_
  obtain ⟨size, ptr, idx, moveContext, pageTable, pointed, _, _, _, _, _, rfl⟩ := Marking.scan_eq_ok.mp scanned
  intro other otherMember marked
  rcases sees.accounts other otherMember marked with recorded | held | inPage
  · exact .inl (List.mem_append_left _ recorded)
  · rw [inHand] at held
    cases held
    exact .inl (List.mem_append_right _ (List.mem_singleton_self _))
  · exact .inr (.inr inPage)

theorem Sees.step (stepped : marking.step manager state.shared.types heap bit state.memory = .ok (some (after, later))) :
    ∃ recorded, Sees manager { state with memory := after, phase := .marking heap bit later } heap bit later objects
      recorded := by
  rcases Marking.step_moves stepped with ⟨rfl, moved⟩ | ⟨obj, inHand, unmarked, rfl, rfl⟩ | ⟨obj, inHand, rfl, scanned⟩
  · exact ⟨done, sees.moved moved⟩
  · exact ⟨done, sees.marked inHand unmarked⟩
  · exact ⟨done ++ [obj], sees.scanned inHand scanned⟩

end Sees

/-- The marker behind step 1: nothing is recorded, and the roots are to be visited. -/
theorem Marks.snapshot {second : PageTable} {queue : List PageTable} {bit : Bit}
    (live : Live manager { state with shared := { state.shared with types := manager.assumeAllDead state.shared.types } } objects)
    (same : state.shared.markTrueBit = bit) (nonnull : second.baseAddr ≠ 0) :
    Marks manager (Collector.snapshot manager state second queue .new .new)
      ⟨state.shared.mm.baseAddr, state.shared.mm.getUsedEndPage, second.baseAddr⟩ bit
      (.start .new state.shared.contexts.rootSets second .new) objects [] where
  phase := by rw [← same]; rfl
  flipped := by rw [← same]; rfl
  nonnull := nonnull
  live := ⟨live.contexts, live.heap, live.rooted, live.placed, live.held⟩
  grey := fun obj isGrey => live.rooted obj isGrey
  inHand := nofun
  book := ⟨.nil, nofun, nofun, nofun, rfl⟩

section Mutator

variable {added : List Nat}

theorem Marks.mutated (marks : Marks manager state heap bit marking objects done)
    (mutated : Mutated manager state next objects added) :
    Marks manager next heap bit marking (added ++ objects) done where
  phase := mutated.phase.trans marks.phase
  flipped := mutated.markTrueBit.trans marks.flipped
  nonnull := marks.nonnull
  live := mutated.live
  grey := fun obj isGrey => List.mem_append_right _ (marks.grey obj isGrey)
  inHand := by
    intro obj held
    rw [mutated.metadata obj (marks.inHand_mem (.inr held))]
    exact marks.inHand obj held
  book := by
    have framed : Book manager state.shared.types heap bit next.memory marking objects done := by
      refine marks.book.frame ?_ mutated.sizes
      intro obj member
      rw [mutated.metadata obj member]
    rw [mutated.types]
    exact { framed with members := fun obj recorded => List.mem_append_right _ (framed.members obj recorded) }

variable (sees : Sees manager state heap bit marking objects done)

include sees

theorem Sees.withContexts {contexts : Contexts Thread} (consistent : contexts.Consistent)
    (reached : ∀ ptr ∈ contexts.pointers, state.Reaches manager ptr) :
    Sees manager (state.withContexts contexts) heap bit marking objects done := by
  obtain ⟨_, fewer⟩ := sees.marks.live.withContexts consistent reached
  refine ⟨sees.marks.mutated (sees.marks.live.mutates_contexts consistent reached), ?_, sees.accounts⟩
  exact fun obj path => sees.tracks obj (fewer obj path)

theorem Sees.store {obj size slot value : Nat} {slots : List Nat} (member : obj ∈ objects)
    (shape : manager.Shape state.shared.types state.memory obj size slots) (slotted : slot ∈ slots)
    (reached : value ≠ 0 → state.Reaches manager value)
    (uncovers : ∀ other, (state.withMemory (TypeManager.stored state.memory obj slot value)).Reaches manager other →
      (marking.colours manager state.shared.types bit state.memory).Covered other →
      (marking.colours manager state.shared.types bit (TypeManager.stored state.memory obj slot value)).Covered other) :
    Sees manager (state.withMemory (TypeManager.stored state.memory obj slot value)) heap bit marking objects done := by
  have live := sees.marks.live
  obtain ⟨_, fewer⟩ := live.store member shape slotted reached
  refine ⟨sees.marks.mutated (live.mutates_store member shape slotted reached), ?_, ?_⟩
  · exact fun other path => uncovers other path (sees.tracks other (fewer other path))
  · refine sees.accounts.frame ?_ fun _ inPage => inPage
    intro other otherMember
    rw [withMemory, live.heap.stored_metadata member shape slotted otherMember]

theorem Sees.alloc {contexts : Contexts Thread} {memory : Memory} {ptr idx size : Nat}
    (new : NewObject manager state objects contexts mm memory ptr idx size) (behind : heap.usedEndPage ≤ idx) :
    Sees manager (state.withObject contexts mm memory) heap bit marking (ptr :: objects) done := by
  have marks := sees.marks
  obtain ⟨_, more⟩ := marks.live.alloc new
  have bodies := marks.live.heap.beside_bodies new.agrees
  have metadata (other : Nat) (otherMember : other ∈ objects) := marks.live.heap.beside_metadata new.agrees otherMember
  have isMarked : (memory.metadata ptr).isMarked = bit := by
    rw [new.marked, marks.flipped, Bit.not_not]
  have apart : marking.inHand ≠ some (.marked ptr) := fun held => new.fresh marks.live (marks.inHand_mem (.inr held))
  refine ⟨marks.mutated (marks.live.mutates_alloc new), ?_, ?_⟩
  · have keeps : Tricolour.Keeps (· ∈ objects) (marking.colours manager state.shared.types bit state.memory)
        (marking.colours manager state.shared.types bit memory) := by
      apply colours_keep marks.live.heap.closed marks.grey
      · exact fun other => marks.live.heap.same_children bodies
      · rintro other otherMember ⟨marked, notHeld⟩
        exact ⟨(metadata other otherMember).symm ▸ marked, notHeld⟩
      · exact fun other isGrey => .inl isGrey
      · rintro other otherMember white ⟨marked, notHeld⟩
        exact absurd ⟨metadata other otherMember ▸ marked, notHeld⟩ white
    refine sees.tracks.keeps keeps ?_
    intro other path
    rcases more other path with rfl | before
    · exact .inr (.marked ⟨isMarked, apart⟩)
    · exact .inl ⟨marks.live.reached_mem before, before⟩
  · intro other otherMember marked
    rcases List.mem_cons.mp otherMember with rfl | before
    · obtain ⟨page, found, within⟩ := new.served
      obtain ⟨slots, shape⟩ := new.shaped
      have header := shape.header_le
      refine .inr (.inr ⟨idx, page, behind, found, within.contains ?_⟩)
      simp only [metadataSize] at header
      simp only [Span.Contains, Span.stop]
      omega
    · have framed : Accounts bit memory heap marking mm objects done := by
        refine sees.accounts.frame (fun other otherMember => by rw [metadata other otherMember]) ?_
        rintro other ⟨page, there, late, found, inside⟩
        obtain ⟨grown, inSlot, _, within⟩ := new.pages found
        exact ⟨page, grown, late, inSlot, within.contains inside⟩
      exact framed other before marked

end Mutator

end State.System

end UwUGC
