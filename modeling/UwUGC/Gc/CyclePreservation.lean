import UwUGC.Gc.CycleProperties

/-! A cycle without mutators preserves the graph that the roots reach, when the marker places
the objects in the order of the pages. -/

set_option autoImplicit false

namespace UwUGC.Gc

open Transition PageTable Mm

namespace Collector

variable {Types Thread : Type} {manager : TypeManager Types} {state : Collector Types Thread} {second : PageTable}
  {objects order : List Nat}

def whileRelocating (state : Collector Types Thread) (copier : CopierActive) (memory : Memory) : Collector Types Thread :=
  { state with memory, phase := .relocating copier }

theorem run_resolves {initial copier : CopierActive} {memory later : Memory}
    (sourced : initial.Sourced manager state.shared.types memory)
    (progress : initial.Progress manager state.shared.types memory copier later) {addrs : List Nat}
    (inside : ∀ addr ∈ addrs, initial.space.Contains addr)
    (buildable : ∀ idx page, initial.pageTable.slot idx = some page →
      ∃ buffer, initial.Builds manager state.shared.types memory page buffer) :
    ∃ last after, run (advance manager) (state.whileRelocating copier later) (addrs.map .resolve) =
        some (state.whileRelocating last after) ∧
      initial.Progress manager state.shared.types memory last after ∧
      (∀ idx, copier.workDone.bit idx = true → last.workDone.bit idx = true) ∧
      ∀ idx page, initial.pageTable.slot idx = some page → ∀ addr ∈ addrs, page.range.Contains addr →
        last.workDone.bit idx = true := by
  induction addrs generalizing copier later with
  | nil => exact ⟨copier, later, rfl, progress, fun _ done => done, by simp⟩
  | cons addr rest ih =>
      obtain ⟨middle, next, resolved, progressed, kept, filled⟩ :=
        progress.resolve sourced (inside addr List.mem_cons_self) fun idx page found _ => buildable idx page found
      obtain ⟨last, after, ran, final, monotone, all⟩ :=
        ih progressed fun addr member => inside addr (List.mem_cons_of_mem _ member)
      refine ⟨last, after, ?_, final, fun idx done => monotone idx (kept idx done), ?_⟩
      · rw [List.map_cons, run_cons_eq_some]
        refine ⟨state.whileRelocating next middle, ?_, ran⟩
        rw [advance_eq_some]
        simp only [act, Collector.resolve, whileRelocating, resolved, bind, Except.bind]
      · intro idx page found other member inPage
        rcases List.mem_cons.mp member with same | later
        · subst same
          exact monotone idx (filled idx page found inPage)
        · exact all idx page found other later inPage

/-- Each object that the roots reached lies at its place, word for word what the copier found
but for its pointers, which lead to the places of what they pointed to. -/
def Moved (manager : TypeManager Types) (state : Collector Types Thread) (second : PageTable) (dest : Nat → Nat)
    (found final : Memory) : Prop :=
  ∀ obj, (state.input manager second).Reachable manager obj → ∀ size slots,
    manager.Shape (manager.assumeAllDead state.shared.types) state.memory obj size slots →
    Image (fun ptr => .ok (dest ptr)) found final obj (dest obj) size slots

/-- A cycle of so many steps of the marker, to the state behind step 3 and from there through
the faults of the copier in any order, takes each object to its place. -/
structure Relocates (manager : TypeManager Types) (state : Collector Types Thread) (second : PageTable)
    (dest : Nat → Nat) (marks : Nat) (swapped : Collector Types Thread) : Prop where
  inSpace : ∀ obj, (state.input manager second).Reachable manager obj →
    (Span.mk (dest obj) ((state.input manager second).sizeOf manager obj)).Within second.space
  apart : ∀ left right, (state.input manager second).Reachable manager left →
    (state.input manager second).Reachable manager right → left ≠ right →
    (Span.mk (dest left) ((state.input manager second).sizeOf manager left)).Separate
      ⟨dest right, (state.input manager second).sizeOf manager right⟩
  prepared : run (advance manager) state (.step1 :: (List.replicate marks .mark ++ [.step3])) = some swapped
  roots : swapped.shared.contexts.rootSets = state.shared.contexts.rootSets.map (List.map (Option.map dest))
  /-- Until then an object has changed in its mark only. -/
  marked : ∀ obj, (state.input manager second).Reachable manager obj →
    swapped.memory.metadata obj = { state.memory.metadata obj with isMarked := state.shared.markTrueBit } ∧
    ∀ offset, metadataSize + offset < (state.input manager second).sizeOf manager obj →
      swapped.memory.data obj offset = state.memory.data obj offset
  copied : ∀ addrs : List Nat, (∀ addr ∈ addrs, second.space.Contains addr) → ∃ relocated,
    run (advance manager) swapped (addrs.map .resolve) = some relocated ∧
    ((∀ idx page, swapped.shared.mm.slot idx = some page → ∃ addr ∈ addrs, page.range.Contains addr) →
      ∃ final, advance manager relocated .finish = some final ∧ final.shared = swapped.shared ∧
        Moved manager state second dest swapped.memory final.memory)

/-- What the roots reach is preserved by a cycle. -/
def Preserved (manager : TypeManager Types) (state : Collector Types Thread) (second : PageTable) : Prop :=
  ∃ dest marks swapped, Relocates manager state second dest marks swapped

/-- The type manager still knows the objects that were marked once the dead types are wiped, and
they can be moved. -/
def TypesKept (manager : TypeManager Types) (state : Collector Types Thread) (second : PageTable) : Prop :=
  ∀ obj, (state.input manager second).Reachable manager obj → ∀ size slots,
    manager.Shape (manager.assumeAllDead state.shared.types) state.memory obj size slots →
    manager.Movable (manager.wipeDeads (manager.assumeAllDead state.shared.types)) state.memory obj size slots

/-- The state behind the steps of the marker. -/
def whenMarked (manager : TypeManager Types) (state : Collector Types Thread) (second : PageTable) (memory : Memory)
    (marking : Marking) : Collector Types Thread :=
  (state.begun manager second).whileMarking (state.input manager second).heap state.shared.markTrueBit (memory, marking)

/-- The marker comes to its end, and step 3 goes through. -/
theorem swapped_exists (startable : state.Startable manager second objects)
    (visits : (state.input manager second).Visits manager order) :
    ∃ marks memory marking contexts, Ended manager (state.input manager second) objects order memory marking ∧
      run (advance manager) state (.step1 :: (List.replicate marks .mark ++ [.step3])) =
        some ((state.whenMarked manager second memory marking).swapped manager (state.input manager second).heap marking
          marking.pageTable contexts) ∧
      contexts.rootSets = state.shared.contexts.rootSets.map
        (List.map (Option.map (landing (state.input manager second) marking))) := by
  obtain ⟨memory, marking, steps, ended⟩ := ended_exists startable.wellFormed visits
  have marked : ∃ marks, run (advance manager)
      ((state.begun manager second).whileMarking (state.input manager second).heap state.shared.markTrueBit
        (state.memory, .start .new (state.input manager second).roots second .new)) (List.replicate marks .mark) =
      some (state.whenMarked manager second memory marking) := run_marks steps
  obtain ⟨marks, marked⟩ := marked
  have visited : ∀ ptr ∈ state.shared.contexts.rootSets.flatMap RootSet.iterPointers,
      relocate marking.registry.freeze ⟨state.shared.mm.baseAddr, second.baseAddr⟩ "Cannot find relocation record" ptr =
        .ok (landing (state.input manager second) marking ptr) := by
    intro ptr rooted
    have reachable : (state.input manager second).Reachable manager ptr := GraphSearch.Reachable.root rooted
    obtain ⟨_, _, _, _, _, found⟩ := ended.relocates startable.wellFormed ((ended.reachable ptr).mpr reachable)
    exact found _
  obtain ⟨contexts, mapped, rootSets⟩ := State.Contexts.mapRoots_returns startable.contexts visited
  refine ⟨marks, memory, marking, contexts, ended, ?_, rootSets⟩
  rw [run_cons_eq_some]
  refine ⟨_, advance_eq_some.mpr (step1_returns startable), ?_⟩
  rw [run_append_eq_some]
  refine ⟨_, marked, ?_⟩
  rw [run_cons_eq_some]
  refine ⟨_, advance_eq_some.mpr (step3_returns rfl ended.ended ⟨?_, mapped⟩), rfl⟩
  -- No page was opened since step 1.
  have none : List.range' state.shared.mm.getUsedEndPage (state.shared.mm.getUsedEndPage - state.shared.mm.getUsedEndPage) =
      [] := by rw [Nat.sub_self, List.range'_zero]
  exact none ▸ rfl

section Ordered

variable {memory : Memory} {marking : Marking}

/-- The places lie in to-space, apart from each other. -/
theorem places_apart (startable : state.Startable manager second objects)
    (ended : Ended manager (state.input manager second) objects order memory marking) :
    (∀ obj ∈ order, (Span.mk (landing (state.input manager second) marking obj)
      ((state.input manager second).sizeOf manager obj)).Within second.space) ∧
    ∀ left ∈ order, ∀ right ∈ order, left ≠ right →
      (Span.mk (landing (state.input manager second) marking left)
        ((state.input manager second).sizeOf manager left)).Separate
        ⟨landing (state.input manager second) marking right, (state.input manager second).sizeOf manager right⟩ := by
  have wellFormed := startable.wellFormed
  obtain ⟨placed, base, nrPages, _⟩ := ended.packed.pages wellFormed.length
  have space : (⟨marking.pageTable.baseAddr, marking.pageTable.nrPages * basePageSize⟩ : Span) = second.space := by
    rw [base, nrPages]
    rfl
  constructor
  · intro obj member
    obtain ⟨record, recorded, _, size, place, _⟩ := ended.relocates wellFormed member
    obtain ⟨idx, page, found, within⟩ := ended.recorded.held record recorded
    rw [place, ← size, ← space]
    exact (within.trans (usedRange_within placed found)).trans (page_within placed found)
  · intro left leftMember right rightMember different
    obtain ⟨record, recorded, source, size, place, _⟩ := ended.relocates wellFormed leftMember
    obtain ⟨other, otherRecorded, otherSource, otherSize, otherPlace, _⟩ := ended.relocates wellFormed rightMember
    rw [place, otherPlace, ← size, ← otherSize]
    have distinct : record ≠ other := by
      intro same
      have leftAbove := wellFormed.inHeap left (ended.mem_objects wellFormed leftMember)
      have rightAbove := wellFormed.inHeap right (ended.mem_objects wellFormed rightMember)
      rw [same, otherSource] at source
      omega
    have : Std.Symm fun left right : RelocationRecord => left.getDestRange.Separate right.getDestRange :=
      ⟨fun _ _ => Span.Separate.symm⟩
    exact Span.Separate.shift.mpr (ended.recorded.apart.forall recorded otherRecorded distinct)

theorem clearSpace_place (startable : state.Startable manager second objects)
    (ended : Ended manager (state.input manager second) objects order memory marking) {obj : Nat} (member : obj ∈ order)
    (after : Memory) {offset : Nat} (inside : offset < (state.input manager second).sizeOf manager obj) :
    clearSpace after state.shared.mm (landing (state.input manager second) marking obj + offset) =
      after (landing (state.input manager second) marking obj + offset) := by
  have within := (places_apart startable ended).1 obj member
  refine clearSpace_outside (startable.apart.symm.not_contains (within.contains ?_))
  simp only [Span.Contains, Span.stop]
  omega

/-- The image that the copier makes of an object has its pointers where they were placed. -/
theorem image_landing (startable : state.Startable manager second objects)
    (ended : Ended manager (state.input manager second) objects order memory marking) {obj : Nat} (member : obj ∈ order)
    {size : Nat} {slots : List Nat} {later : Memory}
    (shape : manager.Shape (manager.assumeAllDead state.shared.types) state.memory obj size slots)
    (image : Image (Ended.copier (state.input manager second) marking state.shared.mm).updater memory later obj
      (landing (state.input manager second) marking obj) size slots) :
    Image (fun ptr => .ok (landing (state.input manager second) marking ptr)) memory later obj
      (landing (state.input manager second) marking obj) size slots := by
  have wellFormed := startable.wellFormed
  refine ⟨image.null, ?_, image.rest⟩
  intro slot inSlots pointer
  have updated := image.pointer slot inSlots pointer
  have before := ended.data_marked wellFormed member shape inSlots
  rw [before] at pointer updated ⊢
  obtain ⟨_, _, _, _, _, found⟩ := ended.relocates wellFormed (ended.child_visited member shape inSlots pointer)
  exact (found "Cant find relocation record").symm.trans updated

section Kept

variable (startable : state.Startable manager second objects)
  (kept : state.TypesKept manager second) (ended : Ended manager (state.input manager second) objects order memory marking)

include startable kept ended

theorem sourced : (Ended.copier (state.input manager second) marking state.shared.mm).Sourced manager
    (manager.wipeDeads (manager.assumeAllDead state.shared.types)) memory := by
  obtain ⟨_, _, nrPages, _⟩ := ended.packed.pages startable.wellFormed.length
  refine ended.sourced startable.wellFormed rfl ?_ startable.inSpace (nrPages ▸ startable.apart)
  exact fun obj member => kept obj ((ended.reachable obj).mp member)

/-- Once every page is done an object lies at its place, if its record is found with its page;
otherwise nothing lies there. -/
theorem landed {last : CopierActive} {after : Memory} {idx : Nat} {page : FlexPage} {record : RelocationRecord}
    (progress : (Ended.copier (state.input manager second) marking state.shared.mm).Progress manager
      (manager.wipeDeads (manager.assumeAllDead state.shared.types)) memory last after)
    (finished : last.finished = true) {obj : Nat} (member : obj ∈ order)
    (listed : record ∈ (Ended.copier (state.input manager second) marking state.shared.mm).records)
    (source : (Ended.copier (state.input manager second) marking state.shared.mm).source record = obj)
    (target : (Ended.copier (state.input manager second) marking state.shared.mm).target record =
      ⟨landing (state.input manager second) marking obj, (state.input manager second).sizeOf manager obj⟩)
    (found : marking.pageTable.slot idx = some page)
    (within : ((Ended.copier (state.input manager second) marking state.shared.mm).target record).Within page.range)
    {size : Nat} {slots : List Nat}
    (shape : manager.Shape (manager.assumeAllDead state.shared.types) state.memory obj size slots) :
    (record ∈ (Ended.copier (state.input manager second) marking state.shared.mm).lookup page →
      Image (fun ptr => .ok (landing (state.input manager second) marking ptr)) memory (clearSpace after state.shared.mm) obj
        (landing (state.input manager second) marking obj) size slots) ∧
    (record ∉ (Ended.copier (state.input manager second) marking state.shared.mm).lookup page → ∀ offset < size,
      clearSpace after state.shared.mm (landing (state.input manager second) marking obj + offset) = 0) := by
  have wellFormed := startable.wellFormed
  have sizeOf : (state.input manager second).sizeOf manager obj = size := shape.sizeOf_eq
  have same : record.size = size := (congrArg Span.length target).trans sizeOf
  have start := congrArg Span.start target
  obtain ⟨image, missing⟩ := progress.landed (ended.laid wellFormed _)
    (sourced startable kept ended) finished found listed within
  have shapeNow := (ended.movable_marked wellFormed member shape
    (kept obj ((ended.reachable obj).mp member) size slots shape)).shape
  rw [source, start, same] at image
  rw [start, same] at missing
  have cleared (offset : Nat) (inside : offset < size) :=
    clearSpace_place startable ended member after (sizeOf.symm ▸ inside : offset < (state.input manager second).sizeOf manager obj)
  constructor
  · intro there
    have moved := (image there slots shapeNow).congr (fun slot inSlots => shape.slot_within inSlots) (fun _ _ => rfl)
      cleared
    exact image_landing startable ended member shape moved
  · intro missed offset inside
    rw [cleared offset inside]
    exact missing missed offset inside

end Kept

theorem preserved_of_ordered (startable : state.Startable manager second objects)
    (kept : state.TypesKept manager second) (visits : (state.input manager second).Visits manager order)
    (ordered : InPageOrder (order.map ((state.input manager second).sizeOf manager))) : state.Preserved manager second := by
  have wellFormed := startable.wellFormed
  obtain ⟨marks, memory, marking, contexts, ended, ran, rootSets⟩ := swapped_exists startable visits
  obtain ⟨inSpace, apart⟩ := places_apart startable ended
  have laid := ended.laid wellFormed state.shared.mm
  have ascending := ended.ascending wellFormed state.shared.mm ordered
  have keptVisited : ∀ obj ∈ order, ∀ size slots,
      manager.Shape (manager.assumeAllDead state.shared.types) state.memory obj size slots →
      manager.Movable (manager.wipeDeads (manager.assumeAllDead state.shared.types)) state.memory obj size slots :=
    fun obj member => kept obj ((ended.reachable obj).mp member)
  have sourced := sourced startable kept ended
  have mapped := ended.mapped wellFormed rfl keptVisited
  refine ⟨landing (state.input manager second) marking, marks,
    (state.whenMarked manager second memory marking).swapped manager (state.input manager second).heap marking
      marking.pageTable contexts, ?_⟩
  constructor
  case inSpace => exact fun obj reachable => inSpace obj ((ended.reachable obj).mpr reachable)
  case apart =>
    intro left right leftReachable rightReachable different
    exact apart left ((ended.reachable left).mpr leftReachable) right ((ended.reachable right).mpr rightReachable) different
  case prepared => exact ran
  case roots => exact rootSets
  case marked =>
    intro obj reachable
    have member := (ended.reachable obj).mpr reachable
    exact ⟨ended.marked obj member, (ended.bodies obj (ended.mem_objects wellFormed member)).data⟩
  case copied =>
    intro addrs inside
    have space : (Ended.copier (state.input manager second) marking state.shared.mm).space = second.space := by
      obtain ⟨_, _, nrPages, _⟩ := ended.packed.pages wellFormed.length
      change (⟨second.baseAddr, marking.pageTable.nrPages * basePageSize⟩ : Span) = second.space
      rw [nrPages]
      rfl
    have buildable (idx : Nat) (page : FlexPage) (found : marking.pageTable.slot idx = some page) :
        ∃ buffer, (Ended.copier (state.input manager second) marking state.shared.mm).Builds manager
          (manager.wipeDeads (manager.assumeAllDead state.shared.types)) memory page buffer := by
      refine CopierActive.builds_exists laid ascending found ?_
      intro record listed
      obtain ⟨slots, movable⟩ := sourced.movable record listed
      exact ⟨slots, movable, mapped record listed slots movable.shape⟩
    obtain ⟨last, after, copied, progressed, _, done⟩ := @run_resolves _ _ manager
      ((state.whenMarked manager second memory marking).swapped manager (state.input manager second).heap marking
        marking.pageTable contexts) _ _ _ _ sourced (.start laid (AtomicBitmap.bit_new _)) addrs
      (fun addr member => space ▸ inside addr member) buildable
    refine ⟨_, copied, ?_⟩
    intro covered
    obtain ⟨workDone, same⟩ := progressed.same
    have finished : last.finished = true := by
      refine List.all_eq_true.mpr ?_
      intro idx _
      cases found : last.pageTable.slot idx with
      | none => rfl
      | some page =>
          rw [same] at found
          obtain ⟨addr, listed, inPage⟩ := covered idx page found
          simp [done idx page found addr listed inPage]
    have fromSpace : last.fromMm = state.shared.mm := by
      rw [same]
      rfl
    refine ⟨_, advance_eq_some.mpr (finish_returns rfl finished), rfl, ?_⟩
    change state.Moved manager second _ memory (clearSpace after last.fromMm)
    rw [fromSpace]
    intro obj reachable size slots shape
    have member := (ended.reachable obj).mpr reachable
    obtain ⟨record, listed, source, target⟩ := ended.target_of wellFormed rfl member
    obtain ⟨idx, page, found, held⟩ := laid.held record listed
    have within := held.trans (usedRange_within laid.placed found)
    refine (landed startable kept ended progressed finished member listed source target found within shape).1 ?_
    exact (laid.mem_lookup ascending found record).mpr ⟨listed, within⟩

theorem mark_none_of_step3 {next : Collector Types Thread} (taken : advance manager state .step3 = some next) :
    advance manager state .mark = none := by
  have acts := act_eq_ok (advance_eq_some.mp taken)
  cases acts with
  | step3 marks ended prepared => simp only [advance, act, mark, marks, ended, bind, Except.bind]

theorem marks_unique {middle middle' last last' : Collector Types Thread} {marks marks' : Nat}
    (ran : run (advance manager) state (List.replicate marks .mark) = some middle)
    (ran' : run (advance manager) state (List.replicate marks' .mark) = some middle')
    (taken : advance manager middle .step3 = some last) (taken' : advance manager middle' .step3 = some last') :
    marks = marks' := by
  have later {few many : Nat} {one other last : Collector Types Thread}
      (first : run (advance manager) state (List.replicate few .mark) = some one)
      (second : run (advance manager) state (List.replicate many .mark) = some other)
      (ended : advance manager one .step3 = some last) : ¬ few < many := by
    intro less
    obtain ⟨rest, rfl⟩ := Nat.exists_eq_add_of_lt less
    rw [Nat.add_assoc, List.replicate_add, run_append_eq_some] at second
    obtain ⟨same, reached, further⟩ := second
    cases first.symm.trans reached
    rw [List.replicate_succ, run_cons_eq_some, mark_none_of_step3 ended] at further
    obtain ⟨_, none, _⟩ := further
    cases none
  have := later ran ran' taken
  have := later ran' ran taken'
  omega

theorem progress_of_run {initial copier : CopierActive} {memory later : Memory} {final : Collector Types Thread}
    (sourced : initial.Sourced manager state.shared.types memory)
    (progress : initial.Progress manager state.shared.types memory copier later) {addrs : List Nat}
    (inside : ∀ addr ∈ addrs, initial.space.Contains addr)
    (ran : run (advance manager) (state.whileRelocating copier later) (addrs.map .resolve) = some final) :
    ∃ last after, final = state.whileRelocating last after ∧
      initial.Progress manager state.shared.types memory last after := by
  induction addrs generalizing copier later with
  | nil =>
      cases ran
      exact ⟨copier, later, rfl, progress⟩
  | cons addr rest ih =>
      rw [List.map_cons, run_cons_eq_some] at ran
      obtain ⟨next, taken, ran⟩ := ran
      have acts := act_eq_ok (advance_eq_some.mp taken)
      cases acts with
      | resolve relocates resolved =>
          cases relocates
          obtain ⟨_, _, again, progressed, _⟩ := progress.resolve sourced (inside addr List.mem_cons_self)
            fun idx page found inPage => progress.buildable sourced resolved found inPage
          cases again.symm.trans resolved
          exact ih progressed (fun addr member => inside addr (List.mem_cons_of_mem _ member)) ran

/-- Where the workers of step 4 start. -/
def jobs (table : PageTable) : List Nat :=
  (List.range table.nrPages).filterMap fun idx => (table.slot idx).map FlexPage.start

theorem mem_jobs {table : PageTable} (placed : table.Placed) {addr : Nat} :
    addr ∈ jobs table ↔ ∃ idx page, table.slot idx = some page ∧ page.start = addr := by
  simp only [jobs, List.mem_filterMap, List.mem_range, Option.map_eq_some_iff]
  constructor
  · intro ⟨idx, _, page, found, start⟩
    exact ⟨idx, page, found, start⟩
  · intro ⟨idx, page, found, start⟩
    have top := placed.within found
    have nonempty := placed.nonempty found
    have bounded := placed.bounded
    exact ⟨idx, by omega, page, found, start⟩

/-- Marked, the object could not be told from memory that nothing was written to. -/
def Blank (state : Collector Types Thread) (obj : Nat) : Prop :=
  ({ state.memory.metadata obj with isMarked := state.shared.markTrueBit } : MetadataExpanded) =
    ⟨.bit0, false, .plainOldData 0⟩

theorem metadata_zero {later : Memory} {obj : Nat} (word : later obj = 0) (payload : later (obj + 8) = 0) :
    later.metadata obj = ⟨.bit0, false, .plainOldData 0⟩ := by
  simp only [Memory.metadata, Memory.header, word, payload]
  rfl

/-- The places that a cycle is said to use are those of the registry, as far as the roots reach. -/
theorem dest_eq_landing {dest : Nat → Nat} {final : Memory}
    (roots : state.shared.contexts.rootSets.map (List.map (Option.map (landing (state.input manager second) marking))) =
      state.shared.contexts.rootSets.map (List.map (Option.map dest)))
    (startable : state.Startable manager second objects)
    (ended : Ended manager (state.input manager second) objects order memory marking)
    (moved : state.Moved manager second dest memory final)
    (images : ∀ obj ∈ order, ∀ size slots,
      manager.Shape (manager.assumeAllDead state.shared.types) state.memory obj size slots →
      dest obj = landing (state.input manager second) marking obj →
      Image (fun ptr => .ok (landing (state.input manager second) marking ptr)) memory final obj
        (landing (state.input manager second) marking obj) size slots)
    {obj : Nat} (reachable : (state.input manager second).Reachable manager obj) :
    dest obj = landing (state.input manager second) marking obj := by
  let Agrees (obj : Nat) : Prop := (state.input manager second).Reachable manager obj ∧
    dest obj = landing (state.input manager second) marking obj
  have both : Agrees obj := by
    refine @GraphSearch.Reachable.closed _ _ _ _ Agrees reachable ?_ ?_
    · intro root rooted
      refine ⟨GraphSearch.Reachable.root rooted, ?_⟩
      obtain ⟨rootSet, member, pointed⟩ := List.mem_flatMap.mp rooted
      have sets := List.map_inj_left.mp roots rootSet member
      have slots := List.map_inj_left.mp sets (some root) (RootSet.mem_iterPointers.mp pointed)
      exact (Option.some.inj slots).symm
    · intro parent child ⟨reached, same⟩ pointed
      refine ⟨GraphSearch.Reachable.child reached pointed, ?_⟩
      have member := (ended.reachable parent).mpr reached
      obtain ⟨size, slots, shape⟩ :=
        startable.wellFormed.heap.shaped parent (ended.mem_objects startable.wellFormed member)
      rw [shape.children_eq] at pointed
      obtain ⟨inSlots, pointer⟩ := List.mem_filter.mp pointed
      obtain ⟨slot, slotMember, held⟩ := List.mem_map.mp inSlots
      have before : memory.data parent slot = child :=
        (ended.data_marked startable.wellFormed member shape slotMember).trans held
      have nonnull : memory.data parent slot ≠ 0 := before ▸ of_decide_eq_true pointer
      have one := (moved parent reached size slots shape).pointer slot slotMember nonnull
      have other := (images parent member size slots shape same).pointer slot slotMember nonnull
      rw [before, same] at one
      rw [before] at other
      exact Except.ok.inj (one.trans other.symm)
  exact both.2

/-- Where the graph is preserved, no object was placed below the one before it, unless its copy
looks like empty memory. -/
theorem ordered_of_preserved (startable : state.Startable manager second objects)
    (kept : state.TypesKept manager second) (visits : (state.input manager second).Visits manager order)
    (visible : ∀ obj, (state.input manager second).Reachable manager obj → ¬ state.Blank obj)
    (preserved : state.Preserved manager second) : InPageOrder (order.map ((state.input manager second).sizeOf manager)) := by
  have wellFormed := startable.wellFormed
  obtain ⟨marks, memory, marking, contexts, ended, ran, rootSets⟩ := swapped_exists startable visits
  obtain ⟨dest, marks', swapped', relocates⟩ := preserved
  have laid := ended.laid wellFormed state.shared.mm
  have sourced := sourced startable kept ended
  -- Both cycles are the same one.
  have one : swapped' = (state.whenMarked manager second memory marking).swapped manager (state.input manager second).heap
      marking marking.pageTable contexts := by
    have ran' := relocates.prepared
    rw [run_cons_eq_some] at ran ran'
    obtain ⟨begun, began, ran⟩ := ran
    obtain ⟨_, again, ran'⟩ := ran'
    cases began.symm.trans again
    rw [run_concat_eq_some] at ran ran'
    obtain ⟨_, marked, taken⟩ := ran
    obtain ⟨_, marked', taken'⟩ := ran'
    cases marks_unique marked marked' taken taken'
    cases marked.symm.trans marked'
    exact Option.some.inj (taken'.symm.trans taken)
  subst one
  have space : (Ended.copier (state.input manager second) marking state.shared.mm).space = second.space := by
    obtain ⟨_, _, nrPages, _⟩ := ended.packed.pages wellFormed.length
    change (⟨second.baseAddr, marking.pageTable.nrPages * basePageSize⟩ : Span) = second.space
    rw [nrPages]
    rfl
  have nonempty {idx : Nat} {page : FlexPage} (found : marking.pageTable.slot idx = some page) :
      page.range.Contains page.start := by
    have positive : 0 < page.size := by
      rw [FlexPage.size_of_nrPages]
      exact Nat.mul_pos (laid.placed.nonempty found) basePageSize_pos
    simp only [Span.Contains, Span.stop, FlexPage.range]
    omega
  have inside : ∀ addr ∈ jobs marking.pageTable, second.space.Contains addr := by
    intro addr listed
    obtain ⟨idx, page, found, rfl⟩ := (mem_jobs laid.placed).mp listed
    rw [← space]
    exact (laid.page_within found).contains (nonempty found)
  obtain ⟨relocated, resolved, finishes⟩ := relocates.copied (jobs marking.pageTable) inside
  obtain ⟨final, taken, _, moved⟩ := finishes fun idx page found =>
    ⟨page.start, (mem_jobs laid.placed).mpr ⟨idx, page, found, rfl⟩, nonempty found⟩
  have copied : run (advance manager) (((state.whenMarked manager second memory marking).swapped manager
      (state.input manager second).heap marking marking.pageTable contexts).whileRelocating
      (Ended.copier (state.input manager second) marking state.shared.mm) memory) ((jobs marking.pageTable).map .resolve) =
      some relocated := resolved
  obtain ⟨last, after, rfl, progress⟩ := progress_of_run sourced (.start laid (AtomicBitmap.bit_new _))
    (fun addr listed => space ▸ inside addr listed) copied
  have acts := act_eq_ok (advance_eq_some.mp taken)
  cases acts with
  | finish same finished =>
      cases same
      have fromSpace : last.fromMm = state.shared.mm := by
        obtain ⟨_, same⟩ := progress.same
        rw [same]
        rfl
      change state.Moved manager second dest memory (clearSpace after last.fromMm) at moved
      rw [fromSpace] at moved
      -- An object that is at its place was found with its page.
      have listed_of {obj : Nat} (member : obj ∈ order) (same : dest obj = landing (state.input manager second) marking obj)
          {record : RelocationRecord} {idx : Nat} {page : FlexPage}
          (listed : record ∈ (Ended.copier (state.input manager second) marking state.shared.mm).records)
          (source : (Ended.copier (state.input manager second) marking state.shared.mm).source record = obj)
          (target : (Ended.copier (state.input manager second) marking state.shared.mm).target record =
            ⟨landing (state.input manager second) marking obj, (state.input manager second).sizeOf manager obj⟩)
          (found : marking.pageTable.slot idx = some page)
          (within : ((Ended.copier (state.input manager second) marking state.shared.mm).target record).Within page.range) :
          record ∈ (Ended.copier (state.input manager second) marking state.shared.mm).lookup page := by
        obtain ⟨size, slots, shape⟩ := wellFormed.heap.shaped obj (ended.mem_objects wellFormed member)
        obtain ⟨_, missing⟩ :=
          landed startable kept ended progress finished member listed source target found within shape
        by_contra missed
        have reachable := (ended.reachable obj).mp member
        have image := moved obj reachable size slots shape
        rw [same] at image
        have header := shape.header_le
        simp only [metadataSize] at header
        have zero := metadata_zero (missing missed 0 (by omega)) (missing missed 8 (by omega))
        apply visible obj reachable
        rw [Nat.add_zero, image.metadata shape.header_le, ended.marked obj member] at zero
        exact zero
      have images : ∀ obj ∈ order, ∀ size slots,
          manager.Shape (manager.assumeAllDead state.shared.types) state.memory obj size slots →
          dest obj = landing (state.input manager second) marking obj →
          Image (fun ptr => .ok (landing (state.input manager second) marking ptr)) memory
            (clearSpace after state.shared.mm) obj (landing (state.input manager second) marking obj) size slots := by
        intro obj member size slots shape same
        obtain ⟨record, listed, source, target⟩ := ended.target_of wellFormed rfl member
        obtain ⟨idx, page, found, held⟩ := laid.held record listed
        have within := held.trans (usedRange_within laid.placed found)
        exact (landed startable kept ended progress finished member listed source target found within shape).1
          (listed_of member same listed source target found within)
      by_contra unordered
      obtain ⟨front, before, back, behind, split, idx, page, found, within, below, opener, inFront, start⟩ :=
        ended.packed.revisits wellFormed.length (ended.sizes ▸ unordered)
      have listed : back ∈ (Ended.copier (state.input manager second) marking state.shared.mm).records := by
        change back ∈ marking.records
        rw [split]
        simp
      obtain ⟨obj, member, source, target⟩ := ended.source_of wellFormed rfl listed
      have same := dest_eq_landing (rootSets.symm.trans relocates.roots) startable ended moved images
        ((ended.reachable obj).mp member)
      exact laid.misses split found below inFront start (listed_of member same listed source target found within)

end Ordered

/-- A cycle without mutators preserves the graph when the marker goes back to no older page; and
when it does go back, it loses an object, unless that could not be told from empty memory. -/
theorem graph_preserved_iff (startable : state.Startable manager second objects)
    (kept : state.TypesKept manager second) (visits : (state.input manager second).Visits manager order) :
    (InPageOrder (order.map ((state.input manager second).sizeOf manager)) → state.Preserved manager second) ∧
    ((∀ obj, (state.input manager second).Reachable manager obj → ¬ state.Blank obj) → state.Preserved manager second →
      InPageOrder (order.map ((state.input manager second).sizeOf manager))) :=
  ⟨preserved_of_ordered startable kept visits, ordered_of_preserved startable kept visits⟩

section Examples

/-- A flushed collector with one context over a heap. -/
def overHeap (memory : Memory) (mm second : PageTable) (rootSet : RootSet) (bit : Bit) : Collector Unit Unit where
  memory := memory
  shared := {
    mm := mm
    secondMm := [second]
    contexts := ⟨[((), 0)], [⟨.new, rootSet⟩], fun _ => some 0⟩
    markTrueBit := bit
    types := () }
  gc := .new
  phase := .flushed

/-- A cycle about to start over three objects in a small and a medium page, one of them not reached. -/
def overLinked : Collector Unit Unit :=
  overHeap (linked .bit1).memory
    ⟨4398046511104, 5, 8, [some ⟨.small, 4398046511104, 56⟩, some ⟨.medium, 4398048608256, 262160⟩, none, none, none,
      none, none, none], some 1⟩
    (.new 2097152 8) [some 4398046511104, none] .bit1

theorem overLinked_startable : overLinked.Startable TypeManager.pointerArrays (.new 2097152 8) linkedObjects where
  flushed := rfl
  received := rfl
  cached := rfl
  wellFormed := linked_wellFormed .bit1
  inSpace := by
    obtain ⟨pair, data, buffer⟩ := linked_shapes .bit1
    have within : ∀ range ∈ linkedObjects.map (TypeManager.pointerArrays.range () (linked .bit1).memory),
        range.Within overLinked.shared.mm.space := by
      simp only [linkedObjects, List.map_cons, List.map_nil, pair.range_eq, data.range_eq, buffer.range_eq]
      decide +kernel
    exact fun obj member => within _ (List.mem_map_of_mem member)
  apart := by decide +kernel
  contexts := by simp [overLinked, overHeap]

theorem graph_preserved_linked : overLinked.Preserved TypeManager.pointerArrays (.new 2097152 8) := by
  have kept : overLinked.TypesKept TypeManager.pointerArrays (.new 2097152 8) :=
    fun _ _ _ _ => TypeManager.pointerArrays_movable
  refine (graph_preserved_iff overLinked_startable kept (linked_visits .bit1)).1 ?_
  decide +kernel

/-- The headers of a small, a medium and a small object of plain data, as a context lays them out. -/
def smallMediumSmall : Memory :=
  Memory.writeHeader (Memory.writeHeader (Memory.writeHeader (fun _ => 0) 2097152 (.new ⟨.bit0, false, .plainOldData 8⟩))
    4194304 (.new ⟨.bit0, false, .plainOldData 262144⟩)) 2097176 (.new ⟨.bit0, false, .plainOldData 8⟩)

/-- A cycle about to start over them, with a root to each. -/
def overSmallMediumSmall : Collector Unit Unit :=
  overHeap smallMediumSmall
    ⟨2097152, 5, 5, [some ⟨.small, 2097152, 48⟩, some ⟨.medium, 4194304, 262160⟩, none, none, none], some 1⟩
    (.new 16777216 5) [some 2097152, some 4194304, some 2097176] .bit1

/-- The graph is not preserved: the third object goes back to the page of the first, and the
lookup of that page ends at the second. -/
theorem graph_lost :
    overSmallMediumSmall.Startable TypeManager.pointerArrays (.new 16777216 5) [2097152, 4194304, 2097176] ∧
      overSmallMediumSmall.TypesKept TypeManager.pointerArrays (.new 16777216 5) ∧
      ¬ overSmallMediumSmall.Preserved TypeManager.pointerArrays (.new 16777216 5) := by
  have firstKind : (smallMediumSmall.metadata 2097152).payload = .plainOldData 8 := by decide +kernel
  have secondKind : (smallMediumSmall.metadata 4194304).payload = .plainOldData 262144 := by decide +kernel
  have thirdKind : (smallMediumSmall.metadata 2097176).payload = .plainOldData 8 := by decide +kernel
  have first : TypeManager.pointerArrays.Shape () smallMediumSmall 2097152 24 [] := .plain firstKind
  have second : TypeManager.pointerArrays.Shape () smallMediumSmall 4194304 262160 [] := .plain secondKind
  have third : TypeManager.pointerArrays.Shape () smallMediumSmall 2097176 24 [] := .plain thirdKind
  have each {motive : Nat → Prop} (ofFirst : motive 2097152) (ofSecond : motive 4194304) (ofThird : motive 2097176) :
      ∀ obj ∈ [2097152, 4194304, 2097176], motive obj := by
    simp [ofFirst, ofSecond, ofThird]
  have leaves : ∀ obj ∈ [2097152, 4194304, 2097176],
      TypeManager.pointerArrays.children () smallMediumSmall obj = [] :=
    each first.children_eq second.children_eq third.children_eq
  have sizes : [2097152, 4194304, 2097176].map (TypeManager.pointerArrays.sizeOf () smallMediumSmall) =
      [24, 262160, 24] := by
    simp [first.sizeOf_eq, second.sizeOf_eq, third.sizeOf_eq]
  have visits : (overSmallMediumSmall.input TypeManager.pointerArrays (.new 16777216 5)).Visits TypeManager.pointerArrays
      [2097152, 4194304, 2097176] := GraphSearch.visits_leaves (by decide) leaves
  have unmarked : ∀ obj ∈ [2097152, 4194304, 2097176], (smallMediumSmall.metadata obj).isMarked ≠ .bit1 := by
    decide +kernel
  have rooted : ∀ ptr ∈ (overSmallMediumSmall.input TypeManager.pointerArrays (.new 16777216 5)).rooted,
      ptr ∈ [2097152, 4194304, 2097176] := by
    intro ptr member
    exact member
  have heap : TypeManager.pointerArrays.Heap () smallMediumSmall [2097152, 4194304, 2097176] := by
    constructor
    · exact each ⟨24, [], first⟩ ⟨262160, [], second⟩ ⟨24, [], third⟩
    · intro obj member child pointed
      rw [leaves obj member] at pointed
      cases pointed
    · have apart : ∀ left ∈ [(⟨2097152, 24⟩ : Span), ⟨4194304, 262160⟩, ⟨2097176, 24⟩],
          ∀ right ∈ [(⟨2097152, 24⟩ : Span), ⟨4194304, 262160⟩, ⟨2097176, 24⟩], left.start ≠ right.start →
            left.Separate right := by decide
      have ranges : ∀ obj ∈ [2097152, 4194304, 2097176], TypeManager.pointerArrays.range () smallMediumSmall obj ∈
          [(⟨2097152, 24⟩ : Span), ⟨4194304, 262160⟩, ⟨2097176, 24⟩] := by
        refine each ?_ ?_ ?_
        · simp [first.range_eq]
        · simp [second.range_eq]
        · simp [third.range_eq]
      intro left leftMember right rightMember different
      exact apart _ (ranges left leftMember) _ (ranges right rightMember) different
  have room : (Demand.ofSizes [24, 262160, 24]).pages ≤ 5 := by decide +kernel
  have wellFormed : (overSmallMediumSmall.input TypeManager.pointerArrays (.new 16777216 5)).WellFormed
      TypeManager.pointerArrays [2097152, 4194304, 2097176] := by
    refine ⟨heap, rooted, by decide, ?_, ?_, rfl, rfl, by decide, ?_⟩
    · exact fun obj reachable => unmarked obj (heap.reachable_mem rooted reachable)
    · have multiples : ∀ size ∈ [24, 262160, 24], size % 8 = 0 := by decide
      intro obj member
      exact multiples _ (sizes ▸ List.mem_map_of_mem member)
    · intro order others
      rw [← visits.unique others]
      exact sizes.symm ▸ room
  have inSpace : ∀ obj ∈ [2097152, 4194304, 2097176],
      (TypeManager.pointerArrays.range () smallMediumSmall obj).Within overSmallMediumSmall.shared.mm.space := by
    refine each ?_ ?_ ?_
    · rw [first.range_eq]
      decide +kernel
    · rw [second.range_eq]
      decide +kernel
    · rw [third.range_eq]
      decide +kernel
  have startable : overSmallMediumSmall.Startable TypeManager.pointerArrays (.new 16777216 5)
      [2097152, 4194304, 2097176] :=
    ⟨rfl, rfl, rfl, wellFormed, inSpace, by decide +kernel, by decide⟩
  have kept : overSmallMediumSmall.TypesKept TypeManager.pointerArrays (.new 16777216 5) :=
    fun _ _ _ _ => TypeManager.pointerArrays_movable
  refine ⟨startable, kept, ?_⟩
  intro preserved
  have visible (obj : Nat) (_ : (overSmallMediumSmall.input TypeManager.pointerArrays (.new 16777216 5)).Reachable
      TypeManager.pointerArrays obj) : ¬ overSmallMediumSmall.Blank obj := by
    intro blank
    cases congrArg MetadataExpanded.isMarked blank
  have ordered := ordered_of_preserved startable kept visits visible preserved
  have unordered : ¬ InPageOrder [24, 262160, 24] := by decide +kernel
  exact unordered (sizes ▸ ordered)

end Examples

end Collector

end UwUGC.Gc
