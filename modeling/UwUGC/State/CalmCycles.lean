import UwUGC.State.CalmRuns

/-! The steps of the collector in a calm run: each keeps what holds phase by phase, and carries
the objects that are left along. -/

set_option autoImplicit false

namespace UwUGC

open Gc PageTable

namespace State.Contexts

variable {Thread : Type} {contexts later : Contexts Thread}

/-- Flushing leaves the roots alone. -/
theorem own_flush (thread : Thread) :
    (contexts.flush.own thread).map ContextShared.rootSet = (contexts.own thread).map ContextShared.rootSet := by
  simp only [own]
  change ((contexts.live thread).bind fun arc => contexts.flush.shared[arc]?).map _ = _
  cases contexts.live thread with
  | none => rfl
  | some arc =>
      simp only [Option.bind_some, flush, flushEach_getElem?]
      split
      · rw [Option.map_map]
        rfl
      · rfl

theorem pointers_flush {ptr : Nat} (pointed : ptr ∈ contexts.flush.pointers) : ptr ∈ contexts.pointers := by
  obtain ⟨entry, member, context, found, held⟩ := mem_pointers.mp pointed
  obtain ⟨old, there, same, _⟩ := shared_flush found
  exact mem_pointers.mpr ⟨entry, member, old, there, same ▸ held⟩

/-- Every thread finds its roots at their places. -/
theorem Consistent.own_moved (consistent : contexts.Consistent) {visitor : Nat → Except Panic Nat} {move : Nat → Nat}
    (apart : (contexts.entries.map Prod.snd).Nodup)
    (visited : ∀ ptr ∈ contexts.pointers, visitor ptr = .ok (move ptr)) (returned : contexts.mapRoots visitor = .ok later)
    (thread : Thread) : (later.own thread).map ContextShared.rootSet =
      (contexts.own thread).map fun context => context.rootSet.map (Option.map move) := by
  simp only [own, (mapRoots_eq_ok returned).1.live]
  cases live : contexts.live thread with
  | none => rfl
  | some arc =>
      have listed : arc ∈ contexts.entries.map Prod.snd := List.mem_map_of_mem (consistent.kept thread arc live)
      rw [Option.bind_some, Option.bind_some, mapRoots_moved apart visited returned, if_pos listed, Option.map_map]
      rfl

end State.Contexts

namespace State.System

variable {Types Request Thread : Type} {manager : TypeManager Types} {state next : System Types Thread}
  {heap : HeapInfo} {bit : Bit} {marking later : Marking} {objects done : List Nat} {second : PageTable}
  {copier : CopierActive} {change : Request → Types → Except Panic Types} {memory after : Memory}

theorem Live.same (live : Live manager state objects) (shared : next.shared = state.shared) (memory : next.memory = state.memory) :
    Live manager next objects := by
  obtain ⟨contexts, heap, rooted, placed, held⟩ := live
  exact ⟨shared ▸ contexts, shared ▸ memory ▸ heap, shared ▸ rooted, shared ▸ placed, shared ▸ memory ▸ held⟩

/-- The same heap with the same roots. -/
theorem Live.same_carried (live : Live manager state objects)
    (nonnull : state.shared.mm.baseAddr ≠ 0) (types : next.shared.types = state.shared.types)
    (memory : next.memory = state.memory)
    (roots : ∀ thread, (next.shared.contexts.own thread).map ContextShared.rootSet =
      (state.shared.contexts.own thread).map ContextShared.rootSet) : Carried manager state next objects id := by
  refine live.stays nonnull roots ?_
  intro obj member size slots shape
  rw [types, memory]
  exact ⟨shape, ⟨rfl, fun _ _ => rfl⟩⟩

/-- A step of the marker changes marks only. -/
theorem Marks.bodies (marks : Marks manager state heap bit marking objects done)
    (stepped : marking.step manager state.shared.types heap bit state.memory = .ok (some (after, later))) :
    manager.SameBodies state.shared.types state.memory after objects := by
  rcases Marking.step_moves stepped with ⟨rfl, _⟩ | ⟨obj, inHand, _, rfl, _⟩ | ⟨_, _, rfl, _⟩
  · exact sameBodies_refl _ _
  · exact marks.live.heap.setMarked (marks.inHand_mem (.inl inHand)) bit
  · exact sameBodies_refl _ _

section Snapshot

variable (resting : Resting manager state objects second)
  (kept : manager.KeepsShapes state.shared.types (manager.assumeAllDead state.shared.types))

include resting kept

/-- Behind step 1 nothing is hidden from the marker, since nothing is marked. -/
theorem Resting.tracing :
    Tracing manager (state.snapshot manager second [] .new .new)
      ⟨state.shared.mm.baseAddr, state.shared.mm.getUsedEndPage, second.baseAddr⟩ state.shared.markTrueBit
      (.start .new state.shared.contexts.rootSets second .new) objects [] second := by
  have live := resting.live.retyped kept
  have unmarked (obj : Nat) (member : obj ∈ objects) : (state.memory.metadata obj).isMarked ≠ state.shared.markTrueBit := by
    rw [resting.unmarked obj member]
    exact state.shared.markTrueBit.not_ne
  refine ⟨⟨.snapshot live rfl resting.spaces.secondNonnull, ?_, ?_⟩, nofun, .start _, rfl, rfl, rfl, resting.spaces,
    resting.arcs, rfl, rfl⟩
  · refine Tricolour.Tracks.start (fun root pointed => pointed) ?_
    exact fun obj path isMarked => unmarked obj (live.heap.reachable_mem live.rooted path) isMarked.1
  · exact fun obj member isMarked => absurd isMarked (unmarked obj member)

theorem Resting.snapshot_carried :
    Carried manager state (state.snapshot manager second [] .new .new) objects id := by
  refine resting.live.stays resting.spaces.nonnull (fun _ => rfl) ?_
  intro obj member size slots shape
  exact ⟨kept _ _ _ _ shape, ⟨rfl, fun _ _ => rfl⟩⟩

end Snapshot

section Swap

variable (tracing : Tracing manager state heap bit marking objects done second) (kept : KeepsRecorded manager state done)
  (ended : marking.step manager state.shared.types heap bit state.memory = .ok none)
  (ordered : Mm.InPageOrder (marking.records.map RelocationRecord.size)) {secondMm : PageTable}
  {contexts : Contexts Thread} (prepared : state.Prepared heap marking secondMm contexts)

include tracing kept ended ordered prepared

/-- The objects that step 3 leaves are those that the marker has recorded, at their places. -/
theorem Tracing.swapped_sound :
    Sound manager (state.swapped manager heap marking secondMm contexts) (done.map (landingOf heap marking)) := by
  have relocating := tracing.relocating kept ended ordered prepared
  obtain rfl := tracing.donates_nothing prepared
  obtain ⟨_, base, nrPages, _⟩ := tracing.packed.pages tracing.spaces.length
  obtain ⟨_, stack, _⟩ := Marking.step_eq_none ended
  have marks := tracing.sees.marks
  refine .relocating relocating tracing.secondMm ?_ ⟨relocating.live, ?_, ?_, ?_⟩
  · change (⟨state.gc.cachedRegistry, some ⟨marking.markStack⟩⟩ : PersistentState) = _
    rw [tracing.cached, stack]
    rfl
  · intro moved member
    obtain ⟨obj, there, rfl⟩ := List.mem_map.mp member
    rw [seen_shared, seen_relocating relocating.phase]
    change (((state.nextCopier heap marking).view manager (manager.wipeDeads state.shared.types) state.memory).metadata
      (landingOf heap marking obj)).isMarked = state.shared.markTrueBit.not
    rw [tracing.moved_metadata kept ended ordered there, (marks.book.marked obj there).1, marks.flipped, Bit.not_not]
  · rw [seen_shared]
    exact tracing.spaces.swap marks.live.placed.length base nrPages
  · rw [seen_shared]
    change (contexts.entries.map Prod.snd).Nodup
    rw [(Contexts.mapRoots_eq_ok prepared.mapped).1.entries]
    exact tracing.arcs

theorem Tracing.swapped_carried :
    Carried manager state (System.seen manager (state.swapped manager heap marking secondMm contexts)) done
      (landingOf heap marking) := by
  have relocating := tracing.relocating kept ended ordered prepared
  have moves := tracing.moves kept ended ordered
  have recorded := tracing.recordedHeap kept ended
  have marks := tracing.sees.marks
  constructor
  case roots =>
    rw [seen_shared]
    exact marks.live.contexts.own_moved tracing.arcs (fun _ => tracing.visited ended) prepared.mapped
  case rooted =>
    intro thread context owned ptr pointed
    obtain ⟨arc, own, found⟩ := Option.bind_eq_some_iff.mp owned
    exact tracing.reached_done ended (marks.live.own_reached own found pointed)
  case closed => exact fun obj member child pointed => tracing.closed_done ended member pointed
  case object =>
    intro obj member
    obtain ⟨size, slots, shape⟩ := marks.live.heap.shaped obj (marks.book.members obj member)
    have now := (kept obj member size slots shape).shape
    refine ⟨size, slots, shape, ?_, ?_⟩
    · rw [seen_shared, seen_relocating relocating.phase]
      exact moves.shape member now
    · rw [seen_relocating relocating.phase]
      refine ⟨congrArg MetadataExpanded.payload (moves.metadata recorded member), ?_, ?_⟩
      · intro offset inside outside
        have same := (moves.image obj member size slots now).rest (metadataSize + offset) inside ?_
        · rw [← Nat.add_assoc, ← Nat.add_assoc] at same
          exact same
        · rintro slot inSlots same
          exact outside (Nat.add_left_cancel same ▸ inSlots)
      · exact fun slot inside => moves.slot_eq member now inside
  case nonnull =>
    exact fun obj member =>
      ⟨marks.live.nonnull tracing.spaces.nonnull (marks.book.members obj member), moves.nonnull obj member⟩
  case injective => exact fun left leftMember right rightMember => moves.injective recorded leftMember rightMember

end Swap

/-- Behind step 5. -/
def reclaimed (state : System Types Thread) (second : PageTable) : System Types Thread :=
  { state with
    memory := Collector.clearSpace state.memory second
    shared := { state.shared with secondMm := state.shared.secondMm ++ [second] }
    phase := .idle }

/-- Once every page is copied, what the mutators see is there, and no part of it in the space
that was left. -/
theorem Relocating.copied (relocating : Relocating manager state copier objects)
    (resting : Resting manager (state.seen manager) objects copier.fromMm) (finished : copier.finished = true) :
    Resting manager (state.copied copier) objects copier.fromMm ∧
      Carried manager (state.seen manager) (state.copied copier) objects id := by
  refine resting.rewritten ⟨?_, ?_, ?_, ?_⟩ ?_
  iterate 4
    rw [seen_shared]
    rfl
  intro obj member address inside
  rw [seen_shared] at inside
  have within := relocating.live.in_space member
  have apart := resting.spaces.apart
  rw [seen_shared] at within apart
  change Collector.clearSpace state.memory copier.fromMm address = _
  rw [Collector.clearSpace_outside (apart.not_contains (within.contains inside)), seen_relocating relocating.phase]
  apply Eq.symm
  apply CopierActive.view_present
  rcases relocating.whole obj member with ⟨idx, page, found, inPage⟩ | there
  · rw [relocating.copies.laid.present_page found (inPage.contains inside)]
    exact relocating.copies.laid.finished_bit finished found
  · exact there address inside

theorem Resting.reclaimed (resting : Resting manager state objects second) :
    Resting manager (state.reclaimed second) objects second ∧ Carried manager state (state.reclaimed second) objects id := by
  refine resting.rewritten ⟨rfl, rfl, rfl, rfl⟩ ?_
  intro obj member address inside
  have within := resting.live.in_space member
  exact Collector.clearSpace_outside (resting.spaces.apart.not_contains (within.contains inside))

section Phases

variable (sound : Sound manager state objects)

include sound

theorem Sound.of_resting (phase : state.phase = .idle ∨ state.phase = .flushed) : ∃ second,
    state.shared.secondMm = [second] ∧ state.gc = .new ∧ Resting manager state objects second := by
  cases sound with
  | resting _ received cached resting => exact ⟨_, received, cached, resting⟩
  | marking tracing => rcases phase with phase | phase <;> cases tracing.sees.marks.phase.symm.trans phase
  | relocating relocating => rcases phase with phase | phase <;> cases relocating.phase.symm.trans phase
  | cleared cleared => rcases phase with phase | phase <;> cases cleared.symm.trans phase

theorem Sound.of_marking (phase : state.phase = .marking heap bit marking) : ∃ done second,
    Tracing manager state heap bit marking objects done second := by
  cases sound with
  | resting resting => rcases resting with resting | resting <;> cases resting.symm.trans phase
  | marking tracing =>
      cases tracing.sees.marks.phase.symm.trans phase
      exact ⟨_, _, tracing⟩
  | relocating relocating => cases relocating.phase.symm.trans phase
  | cleared cleared => cases cleared.symm.trans phase

theorem Sound.of_relocating (phase : state.phase = .relocating copier) : Relocating manager state copier objects ∧
    state.shared.secondMm = [] ∧ state.gc = ⟨none, some .new⟩ ∧ Resting manager (state.seen manager) objects copier.fromMm := by
  cases sound with
  | resting resting => rcases resting with resting | resting <;> cases resting.symm.trans phase
  | marking tracing => cases tracing.sees.marks.phase.symm.trans phase
  | relocating relocating queue cached resting =>
      cases relocating.phase.symm.trans phase
      exact ⟨relocating, queue, cached, resting⟩
  | cleared cleared => cases cleared.symm.trans phase

theorem Sound.of_cleared (phase : state.phase = .cleared second) :
    state.shared.secondMm = [] ∧ state.gc = .new ∧ Resting manager state objects second := by
  cases sound with
  | resting resting => rcases resting with resting | resting <;> cases resting.symm.trans phase
  | marking tracing => cases tracing.sees.marks.phase.symm.trans phase
  | relocating relocating => cases relocating.phase.symm.trans phase
  | cleared cleared queue cached resting =>
      cases cleared.symm.trans phase
      exact ⟨queue, cached, resting⟩

end Phases

section Steps

variable [DecidableEq Thread] {action : Collector.Action}

omit [DecidableEq Thread] in
theorem seen_at {phase : Phase} (there : state.phase = phase) (quiet : ∀ copier, phase ≠ .relocating copier) :
    state.seen manager = state :=
  seen_same fun copier relocates => quiet copier (there.symm.trans relocates)

/-- Where nothing is being copied, the mutators see what is there. -/
theorem Turns.quiet {phase : Phase} (before : state.phase = phase) (notBefore : ∀ copier, phase ≠ .relocating copier)
    (notBehind : ∀ copier, next.phase ≠ .relocating copier) (carried : Carried manager state next objects id) :
    Turns manager state next (.collector action : Action Request Thread) objects objects := by
  apply Turns.stays rfl
  rw [seen_at before notBefore, seen_same notBehind]
  exact carried

/-- A step of the collector: what is left is carried along, and all of it unless the step is step 3. -/
theorem Sound.collector (sound : Sound manager state objects)
    (calm : Calm manager change state (.collector action : Action Request Thread))
    (acted : Collector.act manager state action = .ok (some next)) :
    ∃ left, Sound manager next left ∧ Turns manager state next (.collector action : Action Request Thread) objects left := by
  have acts := Collector.act_eq_ok acted
  cases acts with
  | flush idle =>
      obtain ⟨second, received, cached, resting⟩ := sound.of_resting (.inl idle)
      obtain ⟨live, _⟩ := resting.live.withContexts (resting.live.contexts.same Contexts.sameMap_flush)
        fun ptr pointed => reached_root (Contexts.pointers_flush pointed)
      refine ⟨objects, .resting (.inr rfl) received cached ⟨live.same rfl rfl, resting.unmarked, resting.spaces, resting.arcs⟩, ?_⟩
      refine Turns.quiet idle nofun nofun ?_
      exact resting.live.same_carried resting.spaces.nonnull rfl rfl Contexts.own_flush
  | step1 flushed received cachedRegistry cachedMarker =>
      obtain ⟨second, only, cached, resting⟩ := sound.of_resting (.inr flushed)
      rw [cached] at cachedRegistry cachedMarker
      cases cachedRegistry
      cases cachedMarker
      cases received.symm.trans only
      have kept := calm.step1 rfl
      refine ⟨objects, .marking (resting.tracing kept), ?_⟩
      exact .quiet flushed nofun nofun (resting.snapshot_carried kept)
  | mark phase stepped =>
      obtain ⟨done, second, tracing⟩ := sound.of_marking phase
      obtain ⟨recorded, later⟩ := tracing.marks stepped
      refine ⟨objects, .marking later, ?_⟩
      refine Turns.quiet phase nofun nofun ?_
      have marks := tracing.sees.marks
      have bodies := marks.bodies stepped
      refine marks.live.stays tracing.spaces.nonnull (fun _ => rfl) ?_
      intro obj member size slots shape
      have body := bodies obj member
      rw [shape.sizeOf_eq] at body
      exact ⟨shape.same_body body, body⟩
  | step3 phase ended prepared =>
      obtain ⟨done, second, tracing⟩ := sound.of_marking phase
      obtain ⟨ordered, recorded⟩ := calm.step3 rfl phase
      have marks := tracing.sees.marks
      have kept : KeepsRecorded manager state done := by
        intro obj member
        obtain ⟨record, listed, rfl, _⟩ := marks.record_of tracing.packed member
        exact recorded record listed
      refine ⟨_, tracing.swapped_sound kept ended ordered prepared, ?_⟩
      refine .carried rfl marks.book.members ?_
      rw [seen_at phase nofun]
      exact tracing.swapped_carried kept ended ordered prepared
  | resolve phase resolved =>
      obtain ⟨relocating, queue, cached, resting⟩ := sound.of_relocating phase
      obtain ⟨same, later, relocates, ⟨workDone, rfl⟩, _⟩ := relocating.resolve acted
      have shared := congrArg Gc.Collector.shared same
      rw [seen_shared, seen_shared] at shared
      refine ⟨objects, .relocating relocates (shared ▸ queue) cached (same ▸ resting), ?_⟩
      apply Turns.stays rfl
      rw [same]
      exact relocating.live.same_carried resting.spaces.nonnull rfl rfl fun _ => rfl
  | @finish copier phase finished =>
      obtain ⟨relocating, queue, cached, resting⟩ := sound.of_relocating phase
      obtain ⟨rested, carried⟩ := relocating.copied resting finished
      refine ⟨objects, .cleared rfl queue ?_ rested, ?_⟩
      · change (⟨some .new, state.gc.cachedMarker⟩ : PersistentState) = _
        rw [cached]
        rfl
      · apply Turns.stays rfl
        have later : System.seen manager (state.copied copier) = state.copied copier := seen_same nofun
        exact later.symm ▸ carried
  | step5 phase =>
      obtain ⟨queue, cached, resting⟩ := sound.of_cleared phase
      obtain ⟨rested, carried⟩ := resting.reclaimed
      refine ⟨objects, .resting (.inl rfl) ?_ cached rested, .quiet phase nofun nofun carried⟩
      change state.shared.secondMm ++ _ = _
      rw [queue]
      rfl

end Steps

end State.System

end UwUGC
