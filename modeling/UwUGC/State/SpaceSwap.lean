import UwUGC.Gc.HeapMoves
import UwUGC.State.MarkingRuns
import UwUGC.State.Relocating

/-! Step 3 behind a marker that ran beside mutators. What is recorded is closed under its
pointers, so the heap that the mutators see behind it is the image of what they saw before. -/

set_option autoImplicit false

namespace UwUGC

open Gc PageTable

/-- Two spaces that the collector can move between. -/
structure Spaces (mm second : PageTable) : Prop where
  length : second.pageTable.length = second.nrPages
  nonnull : mm.baseAddr ≠ 0
  secondNonnull : second.baseAddr ≠ 0
  words : mm.baseAddr % 8 = 0
  secondWords : second.baseAddr % 8 = 0
  apart : mm.space.Separate second.space

theorem Spaces.same {mm second table : PageTable} (spaces : Spaces mm second) (base : table.baseAddr = mm.baseAddr)
    (nrPages : table.nrPages = mm.nrPages) : Spaces table second where
  length := spaces.length
  nonnull := base ▸ spaces.nonnull
  secondNonnull := spaces.secondNonnull
  words := base ▸ spaces.words
  secondWords := spaces.secondWords
  apart := by
    rw [PageTable.space, base, nrPages]
    exact spaces.apart

/-- The spaces change their parts when the one that was spare is in use. -/
theorem Spaces.swap {mm second table : PageTable} (spaces : Spaces mm second) (length : mm.pageTable.length = mm.nrPages)
    (base : table.baseAddr = second.baseAddr) (nrPages : table.nrPages = second.nrPages) : Spaces table mm where
  length := length
  nonnull := base ▸ spaces.secondNonnull
  secondNonnull := spaces.nonnull
  words := base ▸ spaces.secondWords
  secondWords := spaces.words
  apart := by
    rw [PageTable.space, base, nrPages]
    exact spaces.apart.symm

namespace Mm

/-- A compaction serves sizes of whole words only. -/
theorem allocEach_aligned {sizes : List Nat} {served : List (Nat × Nat)} {context last : Context} {table final : PageTable}
    {demand : Demand} (meets : Meets context table demand) (aligned : table.Aligned)
    (returned : context.allocEach table sizes = .ok (served, last, final)) : final.Aligned := by
  induction sizes generalizing context table demand served with
  | nil =>
      cases returned
      exact aligned
  | cons size rest ih =>
      obtain ⟨ptr, idx, middle, later, rfl, step, meets', behind⟩ := allocEach_cons meets returned
      simp only [Context.allocEach, bind_eq_ok, Prod.exists] at returned
      obtain ⟨_, _, _, call, _⟩ := returned
      have multiple := (Context.allocates_of_returned meets.placed.indexed call).1
      have middleAligned : middle.Aligned := step.aligned meets.placed aligned (sizeClass_nrPages_pos size) multiple
      intro idx page found
      exact ih meets' middleAligned behind found

end Mm

theorem Gc.Marking.Packed.aligned {heap : HeapInfo} {table : PageTable} {marking : Marking}
    (packed : marking.Packed heap table) (length : table.pageTable.length = table.nrPages) : marking.pageTable.Aligned := by
  obtain ⟨served, returned, _⟩ := packed.compacted
  refine Mm.allocEach_aligned (.clear length) ?_ returned
  intro idx page found
  rw [Mm.slot_clear] at found
  cases found

namespace Gc.CopierActive

variable {Types : Type} {manager : TypeManager Types} {types : Types} {copier : CopierActive} {memory : Memory}
  {record : RelocationRecord} {idx : Nat} {page : FlexPage} {slots : List Nat}

/-- Before the first fault the image of an object is seen at its place. -/
theorem Copies.view_image (copies : copier.Copies manager types memory)
    (fresh : copier.workDone.bit idx = false) (found : copier.pageTable.slot idx = some page)
    (listed : record ∈ copier.lookup page) (within : (copier.target record).Within page.range)
    (shape : manager.Shape types memory (copier.source record) record.size slots) :
    Image copier.updater memory (copier.view manager types memory) (copier.source record) (copier.target record).start
      record.size slots := by
  have laid := copies.laid
  obtain ⟨buffer, built⟩ := copies.buildable idx page found
  have image := built.image laid copies.sourced.movable listed shape
  refine image.congr (fun slot inside => shape.slot_within inside) (fun _ _ => rfl) ?_
  intro offset inside
  have inPage : page.range.Contains ((copier.target record).start + offset) := by
    apply within.contains
    change (Span.mk (copier.target record).start record.size).Contains _
    simp only [Span.Contains, Span.stop]
    omega
  have inSpace := (laid.page_within found).contains inPage
  have absent := laid.present_page found inPage
  rw [fresh] at absent
  rw [view, if_pos ⟨inSpace, absent⟩, laid.promised_page found built inPage]
  have above := laid.above found
  simp only [Span.Contains, FlexPage.range] at inPage
  simp only [target, pageRange] at inPage ⊢
  congr 1
  have lower := within.1
  simp only [target, FlexPage.range] at lower
  omega

end Gc.CopierActive

namespace State.Contexts

variable {Thread : Type} {contexts later : Contexts Thread}

theorem mapRoots_moved {visitor : Nat → Except Panic Nat} {move : Nat → Nat}
    (apart : (contexts.entries.map Prod.snd).Nodup)
    (visited : ∀ ptr ∈ contexts.pointers, visitor ptr = .ok (move ptr)) (returned : contexts.mapRoots visitor = .ok later) :
    ∀ arc : Nat, later.shared[arc]? =
      if arc ∈ contexts.entries.map Prod.snd then (contexts.shared[arc]?).map (moved move) else contexts.shared[arc]? := by
  have each : ∀ arc ∈ contexts.entries.map Prod.snd, ∀ context, contexts.shared[arc]? = some context →
      ∀ ptr ∈ context.rootSet.iterPointers, visitor ptr = .ok (move ptr) := by
    intro arc member context found ptr pointed
    obtain ⟨entry, listed, rfl⟩ := List.mem_map.mp member
    exact visited ptr (mem_pointers.mpr ⟨entry, listed, context, found, pointed⟩)
  obtain ⟨mapped, eachMapped, entries⟩ := mapEach_returns apart each
  have mapped' := (mapRoots_eq_ok returned).2
  rw [eachMapped, Except.ok.injEq] at mapped'
  exact mapped' ▸ entries

/-- Every pointer of a moved root set comes from one of the old ones. -/
theorem pointers_moved {visitor : Nat → Except Panic Nat} {move : Nat → Nat}
    (apart : (contexts.entries.map Prod.snd).Nodup)
    (visited : ∀ ptr ∈ contexts.pointers, visitor ptr = .ok (move ptr)) (returned : contexts.mapRoots visitor = .ok later)
    {ptr : Nat} (pointed : ptr ∈ later.pointers) : ∃ old ∈ contexts.pointers, move old = ptr := by
  obtain ⟨entry, member, context, found, held⟩ := mem_pointers.mp pointed
  rw [(mapRoots_eq_ok returned).1.entries] at member
  rw [mapRoots_moved apart visited returned, if_pos (List.mem_map_of_mem member)] at found
  obtain ⟨before, there, rfl⟩ := Option.map_eq_some_iff.mp found
  simp only [moved, RootSet.mem_iterPointers, List.mem_map, Option.map_eq_some_iff] at held
  obtain ⟨_, inSlots, old, rfl, same⟩ := held
  exact ⟨old, mem_pointers.mpr ⟨entry, member, before, there, RootSet.mem_iterPointers.mpr inSlots⟩, same⟩

end State.Contexts

namespace State.System

variable {Types Request Thread : Type} {manager : TypeManager Types} {state next : System Types Thread}
  {heap : HeapInfo} {bit : Bit} {marking later : Marking} {objects done : List Nat} {second : PageTable}

/-- The marker beside mutators that hide nothing from it and are served nothing. -/
structure Tracing (manager : TypeManager Types) (state : System Types Thread) (heap : HeapInfo) (bit : Bit)
    (marking : Marking) (objects done : List Nat) (second : PageTable) : Prop where
  sees : Sees manager state heap bit marking objects done
  closed : ∀ obj ∈ done, ∀ child ∈ manager.children state.shared.types state.memory obj,
    (marking.colours manager state.shared.types bit state.memory).Covered child
  packed : marking.Packed heap second
  start : heap.start = state.shared.mm.baseAddr
  usedEnd : heap.usedEndPage = state.shared.mm.getUsedEndPage
  toSpace : heap.toSpace = second.baseAddr
  spaces : Spaces state.shared.mm second
  arcs : (state.shared.contexts.entries.map Prod.snd).Nodup
  secondMm : state.shared.secondMm = []
  cached : state.gc = ⟨none, none⟩

/-- Where the marker has placed an object. -/
def landingOf (heap : HeapInfo) (marking : Marking) : Nat → Nat :=
  destination marking.registry.freeze ⟨heap.start, heap.toSpace⟩

theorem Marks.record_of (marks : Marks manager state heap bit marking objects done) (packed : marking.Packed heap second)
    {obj : Nat} (member : obj ∈ done) : ∃ record ∈ marking.records, heap.start + record.src = obj ∧
      record.size = manager.sizeOf state.shared.types state.memory obj ∧
      landingOf heap marking obj = heap.toSpace + record.dest ∧
      ∀ text, relocate marking.registry.freeze ⟨heap.start, heap.toSpace⟩ text obj = .ok (landingOf heap marking obj) := by
  have book := marks.book
  have separate := sources_apart marks.live.heap book.sources book.nodup book.members book.above
  have listed (obj : Nat) (member : obj ∈ done) :
      (obj - heap.start, manager.sizeOf state.shared.types state.memory obj) ∈
        marking.registry.data.recordsSortedBySrc.map fun record => (record.src, record.size) := by
    rw [book.sources]
    exact List.mem_map_of_mem member
  have filled : ∀ record ∈ marking.registry.data.recordsSortedBySrc, 0 < record.size := by
    intro record recorded
    have inSources := List.mem_map_of_mem (f := fun record : RelocationRecord => (record.src, record.size)) recorded
    rw [book.sources] at inSources
    obtain ⟨other, there, same⟩ := List.mem_map.mp inSources
    have header := marks.live.heap.size_pos (book.members other there)
    rw [← (Prod.mk.inj same).2]
    simp only [metadataSize] at header
    omega
  obtain ⟨record, recorded, same⟩ := List.mem_map.mp (listed obj member)
  have source : record.src = obj - heap.start := (Prod.mk.inj same).1
  have above := book.above obj member
  have found (text : String) : relocate marking.registry.freeze ⟨heap.start, heap.toSpace⟩ text obj =
      .ok (heap.toSpace + record.dest) := relocate_returns separate filled marks.nonnull recorded above source text
  have place : landingOf heap marking obj = heap.toSpace + record.dest := by
    rw [landingOf, destination, found]
    rfl
  refine ⟨record, packed.sources ▸ recorded, ?_, (Prod.mk.inj same).2, place, fun text => place ▸ found text⟩
  rw [source]
  exact Nat.add_sub_cancel' above

theorem Marks.object_of (marks : Marks manager state heap bit marking objects done) (packed : marking.Packed heap second)
    {record : RelocationRecord} (recorded : record ∈ marking.records) : ∃ obj ∈ done, heap.start + record.src = obj ∧
      record.size = manager.sizeOf state.shared.types state.memory obj := by
  rw [← packed.sources] at recorded
  have listed := List.mem_map_of_mem (f := fun record : RelocationRecord => (record.src, record.size)) recorded
  rw [marks.book.sources] at listed
  obtain ⟨obj, member, same⟩ := List.mem_map.mp listed
  refine ⟨obj, member, ?_, (Prod.mk.inj same).2.symm⟩
  rw [← (Prod.mk.inj same).1]
  exact Nat.add_sub_cancel' (marks.book.above obj member)

section Ended

variable (tracing : Tracing manager state heap bit marking objects done second)
  (ended : marking.step manager state.shared.types heap bit state.memory = .ok none)

include tracing ended

theorem Tracing.covered_done {obj : Nat} (member : obj ∈ objects)
    (covered : (marking.colours manager state.shared.types bit state.memory).Covered obj) : obj ∈ done := by
  obtain ⟨idle, stack, roots⟩ := Marking.step_eq_none ended
  have nothing : marking.grey = [] := by
    simp only [Marking.grey, idle, stack, roots, List.append_nil]
  have marked := covered.finished nothing
  rcases tracing.sees.accounts obj member marked.1 with recorded | inHand | ⟨idx, page, late, found, _⟩
  · exact recorded
  · exact absurd inHand marked.2
  · have below := tracing.sees.marks.live.placed.indexed.below found
    rw [tracing.usedEnd] at late
    simp only [getUsedEndPage] at late
    omega

theorem Tracing.reached_done {obj : Nat} (reached : state.Reaches manager obj) : obj ∈ done :=
  tracing.covered_done ended (tracing.sees.marks.live.reached_mem reached) (tracing.sees.tracks obj reached)

/-- What is recorded points to what is recorded. -/
theorem Tracing.closed_done {obj child : Nat} (member : obj ∈ done)
    (pointed : child ∈ manager.children state.shared.types state.memory obj) : child ∈ done :=
  tracing.covered_done ended
    (tracing.sees.marks.live.heap.closed obj (tracing.sees.marks.book.members obj member) child pointed)
    (tracing.closed obj member child pointed)

end Ended

/-- The copier that step 3 starts. -/
def nextCopier (state : System Types Thread) (heap : HeapInfo) (marking : Marking) : CopierActive :=
  .start ⟨heap.start, heap.toSpace⟩ marking.registry.freeze state.shared.mm marking.pageTable

/-- The type tables behind step 3 know the objects that are copied, and these can be moved. -/
def KeepsRecorded (manager : TypeManager Types) (state : System Types Thread) (done : List Nat) : Prop :=
  ∀ obj ∈ done, ∀ size slots, manager.Shape state.shared.types state.memory obj size slots →
    manager.Movable (manager.wipeDeads state.shared.types) state.memory obj size slots

section Copier

variable (tracing : Tracing manager state heap bit marking objects done second)

include tracing

theorem Tracing.laid (ordered : Mm.InPageOrder (marking.records.map RelocationRecord.size)) :
    (state.nextCopier heap marking).Laid := by
  obtain ⟨placed, base, _, held, starts⟩ := tracing.packed.pages tracing.spaces.length
  have ascending := tracing.packed.ascending tracing.spaces.length ordered
  refine ⟨placed, base.trans tracing.toSpace.symm, rfl, .new _, rfl, held, starts, ?_, ?_⟩
  · exact ascending.imp fun {left right} behind => .inl behind
  · intro record recorded
    obtain ⟨obj, member, _, size⟩ := tracing.sees.marks.object_of tracing.packed recorded
    rw [size]
    exact tracing.sees.marks.live.heap.size_pos (tracing.sees.marks.book.members obj member)

theorem Tracing.space_eq : (state.nextCopier heap marking).space = second.space := by
  obtain ⟨_, _, nrPages, _⟩ := tracing.packed.pages tracing.spaces.length
  simp only [CopierActive.space, nextCopier, CopierActive.start, nrPages, tracing.toSpace, PageTable.space]

/-- Where a record comes from. -/
theorem Tracing.source_of {record : RelocationRecord} (recorded : record ∈ (state.nextCopier heap marking).records) :
    ∃ obj ∈ done, (state.nextCopier heap marking).source record = obj ∧
      record.size = manager.sizeOf state.shared.types state.memory obj := by
  obtain ⟨obj, member, place, size⟩ := tracing.sees.marks.object_of tracing.packed recorded
  refine ⟨obj, member, ?_, size⟩
  rw [← place, tracing.start]
  rfl

theorem Tracing.target_of {obj : Nat} (member : obj ∈ done) : ∃ record ∈ (state.nextCopier heap marking).records,
    (state.nextCopier heap marking).source record = obj ∧
    record.size = manager.sizeOf state.shared.types state.memory obj ∧
    ((state.nextCopier heap marking).target record).start = landingOf heap marking obj ∧
    ∀ text, relocate marking.registry.freeze ⟨heap.start, heap.toSpace⟩ text obj = .ok (landingOf heap marking obj) := by
  obtain ⟨record, recorded, source, size, place, found⟩ := tracing.sees.marks.record_of tracing.packed member
  refine ⟨record, recorded, ?_, size, place.symm, found⟩
  rw [← source, tracing.start]
  rfl

variable (kept : KeepsRecorded manager state done)

include kept

theorem Tracing.sourced :
    (state.nextCopier heap marking).Sourced manager (manager.wipeDeads state.shared.types) state.memory := by
  have live := tracing.sees.marks.live
  constructor
  · intro record recorded
    obtain ⟨obj, member, place, same⟩ := tracing.source_of recorded
    obtain ⟨size, slots, shape⟩ := live.heap.shaped obj (tracing.sees.marks.book.members obj member)
    rw [place, same, shape.sizeOf_eq]
    exact ⟨slots, kept obj member size slots shape⟩
  · intro record recorded
    obtain ⟨obj, member, place, same⟩ := tracing.source_of recorded
    rw [place, same, tracing.space_eq]
    exact tracing.spaces.apart.within (live.in_space (tracing.sees.marks.book.members obj member)) (.refl _)

variable (ended : marking.step manager state.shared.types heap bit state.memory = .ok none)

include ended

/-- The heap of what is recorded, as the later types have it. -/
theorem Tracing.recordedHeap : manager.Heap (manager.wipeDeads state.shared.types) state.memory done :=
  tracing.sees.marks.live.heap.restrict tracing.sees.marks.book.members
    (fun _ member _ pointed => tracing.closed_done ended member pointed)
    fun obj member size slots shape => (kept obj member size slots shape).shape

theorem Tracing.mapped {record : RelocationRecord} (recorded : record ∈ (state.nextCopier heap marking).records)
    {slots : List Nat} (shape : manager.Shape (manager.wipeDeads state.shared.types) state.memory
      ((state.nextCopier heap marking).source record) record.size slots) {slot : Nat} (inSlots : slot ∈ slots)
    (pointer : state.memory.data ((state.nextCopier heap marking).source record) slot ≠ 0) :
    (state.nextCopier heap marking).updater (state.memory.data ((state.nextCopier heap marking).source record) slot) =
      .ok (landingOf heap marking (state.memory.data ((state.nextCopier heap marking).source record) slot)) := by
  obtain ⟨obj, member, place, _⟩ := tracing.source_of recorded
  rw [place] at shape pointer ⊢
  have pointed : state.memory.data obj slot ∈ manager.children (manager.wipeDeads state.shared.types) state.memory obj := by
    rw [shape.children_eq]
    exact List.mem_filter.mpr ⟨List.mem_map_of_mem inSlots, decide_eq_true pointer⟩
  have child := (tracing.recordedHeap kept ended).closed obj member _ pointed
  obtain ⟨_, _, _, _, _, found⟩ := tracing.sees.marks.record_of tracing.packed child
  exact found _

variable (ordered : Mm.InPageOrder (marking.records.map RelocationRecord.size))

include ordered

theorem Tracing.copies :
    (state.nextCopier heap marking).Copies manager (manager.wipeDeads state.shared.types) state.memory := by
  have laid := tracing.laid ordered
  have sourced := tracing.sourced kept
  have ascending := tracing.packed.ascending tracing.spaces.length ordered
  refine ⟨laid, sourced, ?_⟩
  intro idx page found
  refine CopierActive.builds_exists laid ascending found ?_
  intro record recorded
  obtain ⟨slots, movable⟩ := sourced.movable record recorded
  exact ⟨slots, movable, fun slot inSlots pointer => ⟨_, tracing.mapped kept ended recorded movable.shape inSlots pointer⟩⟩

/-- What is seen behind step 3 is what was there, with every object at its place. -/
theorem Tracing.moves : manager.Moves (manager.wipeDeads state.shared.types) state.memory
    ((state.nextCopier heap marking).view manager (manager.wipeDeads state.shared.types) state.memory)
    (landingOf heap marking) done := by
  have copies := tracing.copies kept ended ordered
  have laid := copies.laid
  have ascending := tracing.packed.ascending tracing.spaces.length ordered
  constructor
  case image =>
    intro obj member size slots shape
    obtain ⟨record, recorded, source, sized, target, _⟩ := tracing.target_of member
    obtain ⟨idx, page, found, held⟩ := laid.held record recorded
    have within := held.trans (usedRange_within laid.placed found)
    have listed := (laid.mem_lookup ascending found record).mpr ⟨recorded, within⟩
    obtain ⟨oldSize, oldSlots, old⟩ := tracing.sees.marks.live.heap.shaped obj (tracing.sees.marks.book.members obj member)
    obtain ⟨sameSize, _⟩ := (kept obj member oldSize oldSlots old).shape.unique shape
    have length : record.size = size := by rw [sized, old.sizeOf_eq, sameSize]
    have moving := shape
    rw [← source, ← length] at moving
    have fresh : (state.nextCopier heap marking).workDone.bit idx = false := AtomicBitmap.bit_new _ idx
    have image := copies.view_image fresh found listed within moving
    have updated (slot : Nat) (inSlots : slot ∈ slots) := tracing.mapped kept ended recorded moving inSlots
    simp only [source, target, length] at image updated
    refine ⟨image.null, ?_, image.rest⟩
    intro slot inSlots pointer
    rw [← image.pointer slot inSlots pointer]
    exact (updated slot inSlots pointer).symm
  case nonnull =>
    intro obj member
    obtain ⟨record, _, _, _, place, _⟩ := tracing.sees.marks.record_of tracing.packed member
    have nonnull := tracing.spaces.secondNonnull
    have toSpace := tracing.toSpace
    omega
  case apart =>
    intro left leftMember right rightMember different
    obtain ⟨record, recorded, source, size, target, _⟩ := tracing.target_of leftMember
    obtain ⟨other, otherRecorded, otherSource, otherSize, otherTarget, _⟩ := tracing.target_of rightMember
    have sized (obj : Nat) (member : obj ∈ done) : manager.sizeOf (manager.wipeDeads state.shared.types) state.memory obj =
        manager.sizeOf state.shared.types state.memory obj := by
      obtain ⟨length, slots, shape⟩ := tracing.sees.marks.live.heap.shaped obj (tracing.sees.marks.book.members obj member)
      rw [(kept obj member length slots shape).shape.sizeOf_eq, shape.sizeOf_eq]
    rw [sized left leftMember, sized right rightMember, ← size, ← otherSize, ← target, ← otherTarget]
    have distinct : record ≠ other := by
      rintro rfl
      exact different (source.symm.trans otherSource)
    have : Std.Symm fun left right : RelocationRecord => left.getDestRange.Separate right.getDestRange :=
      ⟨fun _ _ => Span.Separate.symm⟩
    exact Span.Separate.shift.mpr (laid.apart.forall recorded otherRecorded distinct)

variable {secondMm : PageTable} {contexts : Contexts Thread} (prepared : state.Prepared heap marking secondMm contexts)

omit kept ended ordered in
include prepared in
/-- No page was opened since step 1, so step 3 donates none. -/
theorem Tracing.donates_nothing : secondMm = marking.pageTable := by
  have donated := prepared.donated
  rw [tracing.usedEnd, Nat.sub_self, List.range'_zero] at donated
  exact (Except.ok.inj donated).symm

omit kept ordered in
theorem Tracing.visited {ptr : Nat} (pointed : ptr ∈ state.shared.contexts.pointers) :
    relocate marking.registry.freeze ⟨heap.start, heap.toSpace⟩ "Cannot find relocation record" ptr =
      .ok (landingOf heap marking ptr) := by
  obtain ⟨_, _, _, _, _, found⟩ :=
    tracing.sees.marks.record_of tracing.packed (tracing.reached_done ended (reached_root pointed))
  exact found _

include prepared

theorem Tracing.relocating : Relocating manager (state.swapped manager heap marking secondMm contexts)
    (state.nextCopier heap marking) (done.map (landingOf heap marking)) := by
  obtain rfl := tracing.donates_nothing prepared
  have copies := tracing.copies kept ended ordered
  have moves := tracing.moves kept ended ordered
  have recorded := tracing.recordedHeap kept ended
  have marks := tracing.sees.marks
  obtain ⟨placed, base, nrPages, held, _⟩ := tracing.packed.pages tracing.spaces.length
  have phase : (state.swapped manager heap marking marking.pageTable contexts).phase =
      .relocating (state.nextCopier heap marking) := rfl
  -- Where an object has gone, with all that it had.
  have place {obj : Nat} (member : obj ∈ done) : ∃ record ∈ (state.nextCopier heap marking).records,
      manager.range (manager.wipeDeads state.shared.types)
        ((state.nextCopier heap marking).view manager (manager.wipeDeads state.shared.types) state.memory)
        (landingOf heap marking obj) = (state.nextCopier heap marking).target record := by
    obtain ⟨record, listed, _, size, target, _⟩ := tracing.target_of member
    obtain ⟨length, slots, shape⟩ := marks.live.heap.shaped obj (marks.book.members obj member)
    refine ⟨record, listed, ?_⟩
    rw [TypeManager.range, moves.sizeOf_eq recorded member, (kept obj member length slots shape).shape.sizeOf_eq,
      ← shape.sizeOf_eq, ← size, ← target]
    rfl
  refine ⟨phase, copies, ?_, ?_, ?_, ?_, ?_⟩
  · change marking.pageTable.space = _
    rw [tracing.space_eq, PageTable.space, base, nrPages]
    rfl
  · change marking.pageTable.baseAddr % 8 = 0
    rw [base]
    exact tracing.spaces.secondWords
  · exact tracing.packed.aligned tracing.spaces.length
  · rw [seen_relocating phase]
    constructor
    case contexts => exact marks.live.contexts.same (Contexts.mapRoots_eq_ok prepared.mapped).1
    case heap => exact moves.movedHeap recorded
    case rooted =>
      intro ptr pointed
      obtain ⟨old, rooted, rfl⟩ :=
        Contexts.pointers_moved tracing.arcs (fun ptr => tracing.visited ended) prepared.mapped pointed
      exact List.mem_map_of_mem (tracing.reached_done ended (reached_root rooted))
    case placed => exact placed
    case held =>
      intro moved member
      obtain ⟨obj, there, rfl⟩ := List.mem_map.mp member
      obtain ⟨record, listed, range⟩ := place there
      exact range ▸ copies.laid.held record listed
  · intro moved member
    obtain ⟨obj, there, rfl⟩ := List.mem_map.mp member
    obtain ⟨record, listed, range⟩ := place there
    obtain ⟨idx, page, found, inPage⟩ := copies.laid.held record listed
    rw [seen_relocating phase]
    exact .inl ⟨idx, page, found, range ▸ inPage.trans (usedRange_within copies.laid.placed found)⟩

omit prepared in
/-- A copy has the mark of its object. -/
theorem Tracing.moved_metadata {obj : Nat} (member : obj ∈ done) :
    ((state.nextCopier heap marking).view manager (manager.wipeDeads state.shared.types) state.memory).metadata
      (landingOf heap marking obj) = state.memory.metadata obj :=
  (tracing.moves kept ended ordered).metadata (tracing.recordedHeap kept ended) member

end Copier

end State.System

end UwUGC
