import Mathlib.Algebra.Order.BigOperators.Group.List
import UwUGC.State.Transparency

/-! The collector gets on with a calm run: its steps panic only where the marker finds no room or an
object without whole words, or at an address that is not in to-space, and by itself it brings the loops
of a cycle to their ends. -/

set_option autoImplicit false

namespace UwUGC

open Gc PageTable

namespace Gc.CopierActive

variable {Types : Type} {manager : TypeManager Types} {types : Types} {copier : CopierActive} {memory : Memory} {addr : Nat}

theorem Marked.more {idx : Nat} {next : CopierActive} (marked : copier.Marked idx next) :
    next.workDone.bit idx = true ∧ ∀ other, copier.workDone.bit other = true → next.workDone.bit other = true := by
  obtain ⟨workDone, rfl, _, _, bits⟩ := marked
  exact ⟨by simp [bits], fun other done => by simp [bits, done]⟩

/-- A fault in to-space is resolved, and its page is done afterwards. -/
theorem Copies.resolves (copies : copier.Copies manager types memory) (inside : copier.space.Contains addr) :
    ∃ after next, copier.resolveFault manager types memory addr = .ok (after, next) ∧
      (∀ other, copier.workDone.bit other = true → next.workDone.bit other = true) ∧
      ∀ idx page, copier.pageTable.slot idx = some page → page.range.Contains addr → next.workDone.bit idx = true := by
  have laid := copies.laid
  by_cases hit : ∃ idx page, copier.pageTable.slot idx = some page ∧ page.range.Contains addr
  · obtain ⟨idx, page, found, inPage⟩ := hit
    obtain ⟨after, next, relocated, marked⟩ : ∃ after next,
        copier.doRelocate manager types memory idx page = .ok (after, next) ∧ copier.Marked idx next := by
      cases done : copier.workDone.bit idx with
      | true =>
          obtain ⟨next, relocated, marked⟩ := doRelocate_done laid found done
          exact ⟨memory, next, relocated, marked⟩
      | false =>
          obtain ⟨buffer, built⟩ := copies.buildable idx page found
          have relocated : ∃ next, copier.Marked idx next ∧ copier.doRelocate manager types memory idx page = _ :=
            doRelocate_fresh laid found done
          obtain ⟨next, marked, relocated⟩ := relocated
          unfold Builds at built
          rw [built] at relocated
          exact ⟨_, next, relocated, marked⟩
    refine ⟨after, next, (resolveFault_page laid found inPage).trans relocated, marked.more.2, ?_⟩
    intro other otherPage otherFound inOther
    have one : other = idx := by
      by_contra different
      exact (pages_separate laid.placed otherFound found different).not_contains inOther inPage
    exact one ▸ marked.more.1
  · have outside (idx : Nat) (page : FlexPage) (found : copier.pageTable.slot idx = some page) :
        ¬ page.range.Contains addr := fun inPage => hit ⟨idx, page, found, inPage⟩
    obtain ⟨above, bounded⟩ := base_page_inside inside
    obtain ⟨after, next, zeroed, marked, _⟩ := @doZeropage_eq_ok _ memory laid _ (laid.length ▸ bounded)
    exact ⟨after, next, (resolveFault_zeropage laid above outside).trans zeroed, marked.more.2,
      fun idx page found inPage => absurd inPage (outside idx page found)⟩

end Gc.CopierActive

namespace Gc.Marking

variable {Types : Type} (manager : TypeManager Types) (types : Types)

/-- The spare space has no place for the object that is to be scanned. -/
def NoRoom (memory : Memory) (marking : Marking) : Prop :=
  ∃ obj moveContext pageTable, marking.inHand = some (.marked obj) ∧
    marking.moveContext.allocFromPageTable marking.pageTable (manager.sizeOf types memory obj) =
      .ok (none, moveContext, pageTable)

/-- The object that is to be scanned has no whole words: the assertion of the allocator on sizes. -/
def OddSize (memory : Memory) (marking : Marking) : Prop :=
  ∃ obj, marking.inHand = some (.marked obj) ∧ manager.sizeOf types memory obj % 8 ≠ 0

end Gc.Marking

namespace State.System

variable {Types Request Thread : Type} {manager : TypeManager Types} {state next : System Types Thread}
  {heap : HeapInfo} {bit : Bit} {marking later : Marking} {objects done : List Nat} {second : PageTable}
  {copier : CopierActive} {change : Request → Types → Except Panic Types} {after : Memory}

section Tracing

variable (tracing : Tracing manager state heap bit marking objects done second)

include tracing

/-- The marker stops only where there is no room, and at a size that the allocator refuses to hear of. -/
theorem Tracing.step_returns (room : ¬ marking.NoRoom manager state.shared.types state.memory)
    (whole : ¬ marking.OddSize manager state.shared.types state.memory) :
    ∃ outcome, marking.step manager state.shared.types heap bit state.memory = .ok outcome := by
  have marks := tracing.sees.marks
  cases inHand : marking.inHand with
  | none =>
      cases stack : marking.markStack with
      | cons obj rest => exact ⟨_, Marking.step_pop inHand stack⟩
      | nil =>
          cases roots : marking.roots with
          | cons root rest => exact ⟨_, Marking.step_root inHand stack roots⟩
          | nil => exact ⟨_, Marking.step_done inHand stack roots⟩
  | some hand =>
      cases hand with
      | popped obj =>
          refine ⟨some (marking.mark bit state.memory obj), ?_⟩
          simp only [Marking.step, inHand]
      | marked obj =>
          have member := marks.inHand_mem (.inr inHand)
          obtain ⟨size, slots, shape⟩ := marks.live.heap.shaped obj member
          obtain ⟨⟨ptr, idx⟩, moveContext, pageTable, served⟩ : ∃ place moveContext pageTable,
              marking.moveContext.allocFromPageTable marking.pageTable size = .ok (some place, moveContext, pageTable) := by
            have multiple : size % 8 = 0 := by
              by_contra odd
              exact whole ⟨obj, inHand, by rwa [shape.sizeOf_eq]⟩
            obtain ⟨result, moveContext, pageTable, served⟩ :=
              tracing.packed.serves tracing.spaces.length tracing.spaces.secondNonnull multiple
            cases result with
            | some place => exact ⟨place, moveContext, pageTable, served⟩
            | none => exact absurd ⟨obj, moveContext, pageTable, inHand, by rwa [shape.sizeOf_eq]⟩ room
          have start : heap.start ≤ obj := by
            have within := (marks.live.in_space member).1
            rw [tracing.start]
            exact within
          have above : heap.toSpace ≤ ptr := by
            obtain ⟨placed, base, _⟩ := tracing.packed.pages tracing.spaces.length
            obtain ⟨_, step⟩ := Mm.Context.allocates_of_returned placed.indexed served
            have positive := sizeClass_nrPages_pos size
            obtain ⟨there, inSlot, within⟩ := step.served placed positive
            have inTable := (within.trans (usedRange_within (step.placed placed positive) inSlot)).trans
              (page_within (step.placed placed positive) inSlot)
            have lower : pageTable.baseAddr ≤ ptr := inTable.1
            rw [step.frame.1, base] at lower
            rw [tracing.toSpace]
            exact lower
          exact ⟨_, Marking.step_scan inHand
            (Marking.scan_eq_ok.mpr ⟨size, ptr, idx, moveContext, pageTable, _, shape.getSize_eq, served, start, above,
              shape.iterate_eq, rfl⟩)⟩

/-- Once the marker is through, step 3 finds every record that it needs. -/
theorem Tracing.step3_returns (phase : state.phase = .marking heap bit marking)
    (ended : marking.step manager state.shared.types heap bit state.memory = .ok none) :
    ∃ next, Collector.act manager state .step3 = .ok (some next) := by
  obtain ⟨contexts, mapped, _⟩ :=
    Contexts.mapRoots_returns tracing.arcs (fun ptr pointed => tracing.visited ended pointed)
  have donated : Collector.donatePages state.shared.mm
      (List.range' heap.usedEndPage (state.shared.mm.getUsedEndPage - heap.usedEndPage)) marking.pageTable =
        .ok marking.pageTable := by
    rw [tracing.usedEnd, Nat.sub_self]
    rfl
  exact ⟨_, Collector.step3_returns phase ended ⟨donated, mapped⟩⟩

end Tracing

/-- Where a step of the collector can panic. -/
inductive Panics (manager : TypeManager Types) (state : System Types Thread) : Collector.Action → Prop where
  | noRoom {heap : HeapInfo} {bit : Bit} {marking : Marking} {action : Collector.Action}
      (phase : state.phase = .marking heap bit marking) (marks : action = .mark ∨ action = .step3)
      (room : marking.NoRoom manager state.shared.types state.memory) : Panics manager state action
  | oddSize {heap : HeapInfo} {bit : Bit} {marking : Marking} {action : Collector.Action}
      (phase : state.phase = .marking heap bit marking) (marks : action = .mark ∨ action = .step3)
      (odd : marking.OddSize manager state.shared.types state.memory) : Panics manager state action
  | outside {copier : CopierActive} {addr : Nat} (phase : state.phase = .relocating copier)
      (outside : ¬ copier.space.Contains addr) : Panics manager state (.resolve addr)

/-- What the collector does in a calm run goes through. -/
theorem Sound.panics (sound : Sound manager state objects) {action : Collector.Action} {panic : Panic}
    (panicked : Collector.act manager state action = .error panic) : Panics manager state action := by
  cases action with
  | flush =>
      simp only [Collector.act, Collector.flush] at panicked
      cases phase : state.phase <;> simp [phase] at panicked
  | step1 =>
      simp only [Collector.act, Collector.step1] at panicked
      cases phase : state.phase with
      | flushed =>
          obtain ⟨second, received, cached, _⟩ := sound.of_resting (.inr phase)
          simp [phase, received, cached, PersistentState.new, unwrap, bind, Except.bind] at panicked
      | _ => simp [phase] at panicked
  | mark =>
      simp only [Collector.act, Collector.mark] at panicked
      cases phase : state.phase with
      | marking heap bit marking =>
          obtain ⟨done, second, tracing⟩ := sound.of_marking phase
          by_contra neither
          obtain ⟨outcome, stepped⟩ := tracing.step_returns
            (fun room => neither (.noRoom phase (.inl rfl) room)) fun odd => neither (.oddSize phase (.inl rfl) odd)
          cases outcome <;> simp [phase, stepped, bind, Except.bind] at panicked
      | _ => simp [phase] at panicked
  | step3 =>
      cases phase : state.phase with
      | marking heap bit marking =>
          obtain ⟨done, second, tracing⟩ := sound.of_marking phase
          by_contra neither
          obtain ⟨outcome, stepped⟩ := tracing.step_returns
            (fun room => neither (.noRoom phase (.inr rfl) room)) fun odd => neither (.oddSize phase (.inr rfl) odd)
          cases outcome with
          | none =>
              obtain ⟨next, returned⟩ := tracing.step3_returns phase stepped
              rw [returned] at panicked
              cases panicked
          | some pair => simp [Collector.act, Collector.step3, phase, stepped, bind, Except.bind] at panicked
      | _ => simp [Collector.act, Collector.step3, phase] at panicked
  | resolve addr =>
      cases phase : state.phase with
      | relocating copier =>
          obtain ⟨relocating, _⟩ := sound.of_relocating phase
          refine .outside phase ?_
          intro inside
          obtain ⟨after, next, resolved, _⟩ := relocating.copies.resolves inside
          simp [Collector.act, Collector.resolve, phase, resolved, bind, Except.bind] at panicked
      | _ => simp [Collector.act, Collector.resolve, phase] at panicked
  | finish =>
      simp only [Collector.act, Collector.finish] at panicked
      cases phase : state.phase with
      | relocating copier =>
          rw [phase] at panicked
          simp only at panicked
          split at panicked <;> cases panicked
      | _ => simp [phase] at panicked
  | step5 =>
      simp only [Collector.act, Collector.step5] at panicked
      cases phase : state.phase <;> simp [phase] at panicked

section Potential

/-- What is still to come for the marker: each object is pushed as often as something unmarked points
to it, and popped as often. -/
def potential (manager : TypeManager Types) (state : System Types Thread) (bit : Bit) (objects : List Nat)
    (marking : Marking) : Nat :=
  (objects.map fun obj => if (state.memory.metadata obj).isMarked = bit then 0
    else 2 * (manager.children state.shared.types state.memory obj).length + 2).sum +
  (match marking.inHand with
    | none => 0
    | some (.popped _) => 1
    | some (.marked obj) => 2 * (manager.children state.shared.types state.memory obj).length + 1) +
  2 * marking.markStack.length + 3 * marking.roots.length

theorem sum_drop {values : List Nat} {before behind : Nat → Nat} {value amount : Nat} (member : value ∈ values)
    (le : ∀ other ∈ values, behind other ≤ before other) (drop : behind value + amount ≤ before value) :
    (values.map behind).sum + amount ≤ (values.map before).sum := by
  induction values with
  | nil => cases member
  | cons first rest ih =>
      have head := le first List.mem_cons_self
      have others := List.sum_le_sum fun other there => le other (List.mem_cons_of_mem first there)
      simp only [List.map_cons, List.sum_cons]
      rcases List.mem_cons.mp member with rfl | later
      · omega
      · have rested := ih later fun other there => le other (List.mem_cons_of_mem first there)
        omega

theorem Tracing.potential_lt (tracing : Tracing manager state heap bit marking objects done second)
    (stepped : marking.step manager state.shared.types heap bit state.memory = .ok (some (after, later))) :
    potential manager { state with memory := after, phase := .marking heap bit later } bit objects later <
      potential manager state bit objects marking := by
  have marks := tracing.sees.marks
  rcases Marking.step_cases stepped with ⟨obj, inHand, marked⟩ | ⟨obj, inHand, rfl, scanned⟩ |
    ⟨obj, rest, idle, stack, rfl, rfl⟩ | ⟨root, rest, idle, stack, roots, rfl, rfl⟩
  · have member := marks.inHand_mem (.inl inHand)
    by_cases seen : (state.memory.metadata obj).isMarked = bit
    · rw [Marking.mark_seen seen] at marked
      obtain ⟨rfl, rfl⟩ := Prod.mk.inj marked
      simp only [potential, inHand]
      omega
    · rw [Marking.mark_fresh seen] at marked
      obtain ⟨rfl, rfl⟩ := Prod.mk.inj marked
      have bodies := marks.live.heap.setMarked member bit
      have children (other : Nat) (there : other ∈ objects) := marks.live.heap.same_children bodies there
      have dropped := @sum_drop objects
        (fun obj => if (state.memory.metadata obj).isMarked = bit then 0
          else 2 * (manager.children state.shared.types state.memory obj).length + 2)
        (fun other => if ((state.memory.setMarked obj bit).metadata other).isMarked = bit then 0
          else 2 * (manager.children state.shared.types (state.memory.setMarked obj bit) other).length + 2)
        obj (2 * (manager.children state.shared.types state.memory obj).length + 2) member ?_ ?_
      · simp only [potential, inHand, children obj member]
        omega
      · intro other there
        by_cases same : other = obj
        · subst same
          simp
        · rw [marks.live.heap.metadata_setMarked_of_ne member there same, children other there]
      · simp [seen]
  · obtain ⟨_, _, _, _, _, pointed, _, _, _, _, walked, rfl⟩ := Marking.scan_eq_ok.mp scanned
    have children : manager.children state.shared.types state.memory obj = pointed := by
      rw [TypeManager.children, walked]
    simp only [potential, inHand, Marking.scanned, children, List.length_append, List.length_reverse]
    omega
  · simp only [potential, idle, stack, List.length_cons]
    omega
  · simp only [potential, idle, stack, roots, List.length_cons, List.length_nil]
    omega

end Potential

section Runs

variable [DecidableEq Thread]

/-- The marker comes to its end, or to an object that it has no room for or that has no whole words. -/
theorem Tracing.ends (tracing : Tracing manager state heap bit marking objects done second) :
    ∃ marks last heap bit marking, Transition.run (step manager change) state
        (List.replicate marks (.collector .mark : Action Request Thread)) = some last ∧
      last.phase = .marking heap bit marking ∧
      (marking.NoRoom manager last.shared.types last.memory ∨ marking.OddSize manager last.shared.types last.memory ∨
        ∃ next, step manager change last (.collector .step3 : Action Request Thread) = some next) := by
  generalize bound : potential manager state bit objects marking = budget
  induction budget using Nat.strong_induction_on generalizing state marking done with
  | _ budget ih =>
      have phase := tracing.sees.marks.phase
      by_cases room : marking.NoRoom manager state.shared.types state.memory
      · exact ⟨0, state, heap, bit, marking, rfl, phase, .inl room⟩
      by_cases odd : marking.OddSize manager state.shared.types state.memory
      · exact ⟨0, state, heap, bit, marking, rfl, phase, .inr (.inl odd)⟩
      · obtain ⟨outcome, stepped⟩ := tracing.step_returns room odd
        cases outcome with
        | none =>
            obtain ⟨next, returned⟩ := tracing.step3_returns phase stepped
            refine ⟨0, state, heap, bit, marking, rfl, phase, .inr (.inr ⟨next, ?_⟩)⟩
            simp only [System.step, returned]
        | some pair =>
            obtain ⟨after, later⟩ := pair
            obtain ⟨recorded, traced⟩ := tracing.marks stepped
            have less := tracing.potential_lt stepped
            obtain ⟨marks, last, lastHeap, lastBit, lastMarking, ran, lastPhase, ends⟩ := ih _ (bound ▸ less) traced rfl
            refine ⟨marks + 1, last, lastHeap, lastBit, lastMarking, ?_, lastPhase, ends⟩
            rw [List.replicate_succ, Transition.run_cons_eq_some]
            refine ⟨_, ?_, ran⟩
            simp only [System.step, Collector.act, Collector.mark, phase, stepped, bind, Except.bind]

/-- Where the workers start, every page is copied, whatever was copied before. -/
theorem Relocating.fills (relocating : Relocating manager state copier objects) {addrs : List Nat}
    (inside : ∀ addr ∈ addrs, copier.space.Contains addr) :
    ∃ next workDone, Transition.run (step manager change) state
        (addrs.map fun addr => (.collector (.resolve addr) : Action Request Thread)) = some next ∧
      Relocating manager next { copier with workDone } objects ∧ next.seen manager = state.seen manager ∧
      (∀ idx, copier.workDone.bit idx = true → workDone.bit idx = true) ∧
      ∀ idx page, copier.pageTable.slot idx = some page → ∀ addr ∈ addrs, page.range.Contains addr →
        workDone.bit idx = true := by
  induction addrs generalizing state copier with
  | nil => exact ⟨state, copier.workDone, rfl, relocating, rfl, fun _ done => done, by simp⟩
  | cons addr rest ih =>
      obtain ⟨memory, later, resolved, kept, filled⟩ := relocating.copies.resolves (inside addr List.mem_cons_self)
      have acted : Collector.act manager state (.resolve addr) =
          .ok (some { state with memory, phase := .relocating later }) := by
        simp only [Collector.act, Collector.resolve, relocating.phase, resolved, bind, Except.bind]
      obtain ⟨same, copied, relocated, ⟨workDone, rfl⟩, _⟩ := relocating.resolve acted
      cases relocated.phase
      obtain ⟨next, final, ran, last, sameThen, keptThen, filledThen⟩ :=
        ih relocated fun other member => inside other (List.mem_cons_of_mem _ member)
      refine ⟨next, final, ?_, last, sameThen.trans same, fun idx done => keptThen idx (kept idx done), ?_⟩
      · rw [List.map_cons, Transition.run_cons_eq_some]
        refine ⟨_, ?_, ran⟩
        simp only [System.step, acted]
      · intro idx page found other member inPage
        rcases List.mem_cons.mp member with rfl | there
        · exact keptThen idx (filled idx page found inPage)
        · exact filledThen idx page found other there inPage

/-- How the collector brings a cycle to its end, wherever it stands. -/
structure Completes (manager : TypeManager Types) (change : Request → Types → Except Panic Types)
    (state : System Types Thread) : Prop where
  marking : ∀ heap bit marking, state.phase = .marking heap bit marking →
    ∃ marks last heap bit marking, Transition.run (step manager change) state
        (List.replicate marks (.collector .mark : Action Request Thread)) = some last ∧
      last.phase = .marking heap bit marking ∧
      (marking.NoRoom manager last.shared.types last.memory ∨ marking.OddSize manager last.shared.types last.memory ∨
        ∃ next, step manager change last (.collector .step3 : Action Request Thread) = some next)
  relocating : ∀ copier, state.phase = .relocating copier →
    ∃ final objects, Transition.run (step manager change) state
        ((Collector.jobs copier.pageTable).map (fun addr => (.collector (.resolve addr) : Action Request Thread)) ++
          [.collector .finish, .collector .step5]) = some final ∧
      final.phase = .idle ∧ final.gc = .new ∧ final.shared.secondMm = [copier.fromMm] ∧
      Live manager (state.seen manager) objects ∧ Carried manager (state.seen manager) final objects id

theorem Sound.completes (sound : Sound manager state objects) :
    Completes manager change state := by
  constructor
  case marking =>
    intro heap bit marking phase
    obtain ⟨done, second, tracing⟩ := sound.of_marking phase
    exact tracing.ends
  case relocating =>
    intro copier phase
    obtain ⟨relocating, queue, cached, resting⟩ := sound.of_relocating phase
    have laid := relocating.copies.laid
    have nonempty {idx : Nat} {page : FlexPage} (found : copier.pageTable.slot idx = some page) :
        page.range.Contains page.start := by
      have positive : 0 < page.size := by
        rw [FlexPage.size_of_nrPages]
        exact Nat.mul_pos (laid.placed.nonempty found) basePageSize_pos
      simp only [Span.Contains, Span.stop, FlexPage.range]
      omega
    have inside : ∀ addr ∈ Collector.jobs copier.pageTable, copier.space.Contains addr := by
      intro addr listed
      obtain ⟨idx, page, found, rfl⟩ := (Collector.mem_jobs laid.placed).mp listed
      exact (laid.page_within found).contains (nonempty found)
    obtain ⟨next, workDone, ran, relocated, same, _, filled⟩ := relocating.fills inside
    have finished : CopierActive.finished { copier with workDone } = true := by
      refine List.all_eq_true.mpr fun idx _ => ?_
      cases found : copier.pageTable.slot idx with
      | none => simp
      | some page =>
          have listed := (Collector.mem_jobs laid.placed).mpr ⟨idx, page, found, rfl⟩
          simp [filled idx page found page.start listed (nonempty found)]
    have shared := congrArg Gc.Collector.shared same
    have gc := congrArg Gc.Collector.gc same
    rw [seen_shared, seen_shared] at shared
    rw [seen_gc, seen_gc] at gc
    obtain ⟨rested, carried⟩ := relocated.copied (same ▸ resting) finished
    obtain ⟨_, further⟩ := rested.reclaimed
    rw [same] at carried
    have both := Carried.comp carried (by rwa [List.map_id])
    have ended : System.step manager change next (.collector .finish : Action Request Thread) =
        some (Collector.copied next { copier with workDone }) := by
      simp only [System.step, Collector.finish_returns relocated.phase finished]
    refine ⟨_, objects, ?_, rfl, ?_, ?_, relocating.live, both⟩
    · rw [Transition.run_append_eq_some]
      exact ⟨next, ran, Transition.run_cons_eq_some.mpr ⟨_, ended, rfl⟩⟩
    · change (⟨some .new, next.gc.cachedMarker⟩ : PersistentState) = _
      rw [gc, cached]
      rfl
    · change next.shared.secondMm ++ _ = _
      rw [shared, queue]
      rfl

variable {firstBase secondBase nrPages : Nat} {types : Types} {actions : List (Action Request Thread)}

/-- In every state of a calm run a step of the collector panics only where the spare space has no room
for what the marker is at, where that has no whole words, or at an address outside of to-space. -/
theorem collector_panics_only (mapped : Mapped firstBase secondBase nrPages)
    (each : Transition.EachStep (step manager change) (System.new firstBase secondBase nrPages types) actions
      (Calm manager change)) :
    Transition.Throughout (step manager change) (System.new firstBase secondBase nrPages types) actions
      fun state => ∀ action panic, Collector.act manager state action = .error panic → Panics manager state action := by
  intro past rest state split reached action panic panicked
  obtain ⟨objects, sound⟩ := Sound.throughout mapped each past rest state split reached
  exact sound.panics panicked

/-- From every state of a calm run the collector brings its loops to their ends by itself, whatever the
mutators did before: the marker, unless it runs out of room or comes to an odd size, and the workers of
the copier, behind which the heap is the one that the mutators saw. -/
theorem collector_completes (mapped : Mapped firstBase secondBase nrPages)
    (each : Transition.EachStep (step manager change) (System.new firstBase secondBase nrPages types) actions
      (Calm manager change)) :
    Transition.Throughout (step manager change) (System.new firstBase secondBase nrPages types) actions
      (Completes manager change) := by
  intro past rest state split reached
  obtain ⟨objects, sound⟩ := Sound.throughout mapped each past rest state split reached
  exact sound.completes

theorem collector_panics_only_twoCycles :
    Transition.Throughout unitStep (System.new 4194304 8388608 2 ()) twoCycles fun state => ∀ action panic,
      Collector.act TypeManager.pointerArrays state action = .error panic → Panics TypeManager.pointerArrays state action :=
  collector_panics_only mapped_twoPages twoCycles_calm

theorem collector_completes_twoCycles :
    Transition.Throughout unitStep (System.new 4194304 8388608 2 ()) twoCycles
      (Completes TypeManager.pointerArrays fun (_ : Unit) types => .ok types) :=
  collector_completes mapped_twoPages twoCycles_calm

end Runs

end State.System

end UwUGC
