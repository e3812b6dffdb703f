import UwUGC.State.ContextsUpdates
import UwUGC.State.SystemSteps
import UwUGC.Mm.TableRuns

/-! The small page that a context caches. The owner of a page of the current space is the
context whose allocation opened it. -/

set_option autoImplicit false

namespace UwUGC.State

open Gc PageTable

/-- The system with the owners of the pages, which the program does not record. -/
structure Owned (Types Thread : Type) where
  state : System Types Thread
  owner : Nat → Option Nat

namespace Owned

variable {Types Request Thread : Type}

def start (state : System Types Thread) : Owned Types Thread := ⟨state, fun _ => none⟩

/-- The step has opened a small page there. -/
def opens (before after : PageTable) (idx : Nat) : Bool :=
  decide (before.currentBasePage ≤ idx) && decide (idx < after.currentBasePage) &&
    decide ((after.slot idx).map FlexPage.kind = some .small)

def ownerAfter (owned : Owned Types Thread) (action : Action Request Thread) (next : System Types Thread) :
    Nat → Option Nat :=
  match action with
  | .collector .step3 => fun _ => none
  | .collector _ => owned.owner
  | .mutator thread _ => fun idx =>
      if opens owned.state.shared.mm next.shared.mm idx then owned.state.shared.contexts.live thread
      else owned.owner idx

variable (manager : TypeManager Types) (change : Request → Types → Except Panic Types)

def step [DecidableEq Thread] (owned : Owned Types Thread) (action : Action Request Thread) : Option (Owned Types Thread) :=
  (System.step manager change owned.state action).map fun next => ⟨next, owned.ownerAfter action next⟩

/-- The page that a context caches is a small page of the current space that it has opened. -/
def Cached (owned : Owned Types Thread) : Prop :=
  ∀ thread arc context idx, owned.state.shared.contexts.live thread = some arc →
    owned.state.shared.contexts.shared[arc]? = some context → context.mmContext.localBufferPage = some idx →
    ∃ page, owned.state.shared.mm.slot idx = some page ∧ page.kind = .small ∧ owned.owner idx = some arc

/-- What a mutator that may allocate relies on. -/
structure Belongs (owned : Owned Types Thread) : Prop where
  cached : owned.Cached
  /-- No allocation panics, and a small one bumps a page of its own or opens one. -/
  served : ∀ thread arc context size, owned.state.shared.contexts.live thread = some arc →
    owned.state.shared.contexts.shared[arc]? = some context → size % 8 = 0 →
    ∃ result after mm, context.mmContext.allocFromPageTable owned.state.shared.mm size = .ok (result, after, mm) ∧
      ∀ ptr idx, result = some (ptr, idx) → size < FlexPageKind.small.maxObjectSize →
        owned.owner idx = some arc ∨ opens owned.state.shared.mm mm idx = true

/-- No context that exists has a cached page when the spaces are swapped. -/
def Flushed (owned : Owned Types Thread) (action : Action Request Thread) : Prop :=
  action = .collector .step3 → ∀ thread arc context, owned.state.shared.contexts.live thread = some arc →
    owned.state.shared.contexts.shared[arc]? = some context → context.mmContext.localBufferPage = none

/-- A space that no mutator uses. -/
def Spare (table : PageTable) : Prop := table.pageTable.length = table.nrPages ∧ table.baseAddr ≠ 0

def PhaseSound : Phase → Prop
  | .idle => True
  | .flushed => True
  | .marking _ _ marking =>
      marking.pageTable.Indexed ∧ marking.pageTable.baseAddr ≠ 0 ∧ marking.moveContext.Fits marking.pageTable
  | .relocating copier => Spare copier.fromMm
  | .cleared secondMm => Spare secondMm

structure Sound (owned : Owned Types Thread) : Prop where
  contexts : owned.state.shared.contexts.Consistent
  distinct : ∀ left right arc, owned.state.shared.contexts.live left = some arc →
    owned.state.shared.contexts.live right = some arc → left = right
  indexed : owned.state.shared.mm.Indexed
  nonnull : owned.state.shared.mm.baseAddr ≠ 0
  spare : ∀ table ∈ owned.state.shared.secondMm, Spare table
  phase : PhaseSound owned.state.phase
  cached : owned.Cached

variable {manager change} {owned next : Owned Types Thread} {state : System Types Thread}

theorem Spare.clear {table : PageTable} (spare : Spare table) : table.clear.Indexed :=
  (Mm.placed_clear spare.1).indexed

theorem Indexed.spare {table : PageTable} (indexed : table.Indexed) (nonnull : table.baseAddr ≠ 0) : Spare table :=
  ⟨indexed.length, nonnull⟩

theorem opens_eq_true {before after : PageTable} {idx : Nat} {page : FlexPage}
    (behind : before.currentBasePage ≤ idx) (indexed : after.Indexed) (found : after.slot idx = some page)
    (small : page.kind = .small) : opens before after idx = true := by
  simp [opens, behind, indexed.below found, found, small]

theorem opens_eq_false {before after : PageTable} {idx : Nat} (below : idx < before.currentBasePage) :
    opens before after idx = false := by
  simp [opens, Nat.not_le.mpr below]

section Alloc

variable {table final : PageTable} {context after : Mm.Context} {size : Nat} {result : Option (Nat × Nat)}

/-- What an allocation leaves of the table and of every fitting context. -/
theorem alloc_keeps (indexed : table.Indexed) (fits : context.Fits table)
    (served : context.allocFromPageTable table size = .ok (result, after, final)) :
    final.Indexed ∧ final.baseAddr = table.baseAddr ∧ after.Fits final ∧
      ∀ idx page, table.slot idx = some page → ∃ later, final.slot idx = some later ∧ later.kind = page.kind := by
  obtain ⟨_, step, rfl⟩ := (Mm.Context.allocFromPageTable_eq_ok indexed fits).mp served
  have positive := sizeClass_nrPages_pos size
  refine ⟨step.indexed indexed positive, step.frame.1, fits.after indexed step, ?_⟩
  intro idx page found
  obtain ⟨later, there, kind, _⟩ := step.keeps indexed positive found
  exact ⟨later, there, kind⟩

/-- The cached page afterwards is the one of before, or a small page that was opened. -/
theorem alloc_cached (indexed : table.Indexed) (fits : context.Fits table)
    (served : context.allocFromPageTable table size = .ok (result, after, final)) {idx : Nat}
    (selected : after.localBufferPage = some idx) :
    context.localBufferPage = some idx ∨ opens table final idx = true := by
  have kept := alloc_keeps indexed fits served
  obtain ⟨_, step, rfl⟩ := (Mm.Context.allocFromPageTable_eq_ok indexed fits).mp served
  obtain ⟨page, found, small⟩ := kept.2.2.1 idx selected
  by_cases isSmall : size < FlexPageKind.small.maxObjectSize
  · cases result with
    | none =>
        rw [Mm.Context.after_none] at selected
        exact .inl selected
    | some place =>
        obtain ⟨ptr, served⟩ := place
        rw [Mm.Context.after_small context isSmall] at selected
        cases selected
        cases step with
        | bump buffer =>
            rw [Mm.Context.buffer, if_pos isSmall] at buffer
            exact .inl buffer
        | fresh => exact .inr (opens_eq_true (Nat.le_refl _) kept.1 found small)
  · rw [Mm.Context.after_large context isSmall] at selected
    exact .inl selected

end Alloc

theorem Sound.fits (sound : owned.Sound) {thread : Thread} {arc : Nat} {context : ContextShared}
    (live : owned.state.shared.contexts.live thread = some arc)
    (found : owned.state.shared.contexts.shared[arc]? = some context) :
    context.mmContext.Fits owned.state.shared.mm := by
  intro idx selected
  obtain ⟨page, there, small, _⟩ := sound.cached thread arc context idx live found selected
  exact ⟨page, there, small⟩

/-- Off the null page an allocation from a page of its own returns, and stays with its own pages. -/
theorem Sound.belongs (sound : owned.Sound) : owned.Belongs where
  cached := sound.cached
  served := by
    intro thread arc context size live found multiple
    have fits := sound.fits live found
    obtain ⟨result, mm, step⟩ := fits.allocates sound.indexed sound.nonnull size
    have served := (Mm.Context.allocFromPageTable_eq_ok sound.indexed fits).mpr ⟨multiple, step, rfl⟩
    refine ⟨result, _, mm, served, ?_⟩
    intro ptr idx same small
    subst same
    have selected : (context.mmContext.after size (some (ptr, idx))).localBufferPage = some idx := by
      rw [Mm.Context.after_small context.mmContext small]
    rcases alloc_cached sound.indexed fits served selected with before | opened
    · obtain ⟨_, _, _, own⟩ := sound.cached thread arc context idx live found before
      exact .inl own
    · exact .inr opened

theorem donatePage_eq_ok {table final : PageTable} {page : FlexPage} (taken : table.donatePage page = (.ok (), final))
    (indexed : table.Indexed) (nonempty : 0 < page.nrPages) :
    final.Indexed ∧ final.baseAddr = table.baseAddr := by
  refine ⟨indexed.donated nonempty taken, ?_⟩
  obtain ⟨_, _, _, _, _, rfl⟩ := donatePage_fills taken
  rfl

theorem donatePages_eq_ok {mm table final : PageTable} {pages : List Nat} (mmIndexed : mm.Indexed)
    (indexed : table.Indexed) (donated : Collector.donatePages mm pages table = .ok final) :
    final.Indexed ∧ final.baseAddr = table.baseAddr := by
  induction pages generalizing table with
  | nil =>
      cases donated
      exact ⟨indexed, rfl⟩
  | cons idx rest ih =>
      simp only [Collector.donatePages, bind_eq_ok] at donated
      obtain ⟨slot, got, donated⟩ := donated
      cases slot with
      | none => exact ih indexed donated
      | some page =>
          simp only [bind_eq_ok, Collector.donated_eq_ok] at donated
          obtain ⟨middle, taken, donated⟩ := donated
          have nonempty := mmIndexed.nonempty (getPage_eq_ok_some.mp got)
          obtain ⟨kept, base⟩ := donatePage_eq_ok taken indexed nonempty
          obtain ⟨later, same⟩ := ih kept donated
          exact ⟨later, same.trans base⟩

theorem Sound.same {contexts : Contexts Thread} (sound : owned.Sound)
    (same : owned.state.shared.contexts.SameMap contexts)
    (kept : ∀ (arc : Nat) (context : ContextShared) (idx : Nat), contexts.shared[arc]? = some context →
      context.mmContext.localBufferPage = some idx →
      ∃ old, owned.state.shared.contexts.shared[arc]? = some old ∧ old.mmContext.localBufferPage = some idx)
    (shared : state.shared.contexts = contexts) (mm : state.shared.mm = owned.state.shared.mm)
    (spare : ∀ table ∈ state.shared.secondMm, Spare table) (phase : PhaseSound state.phase) :
    Sound ⟨state, owned.owner⟩ := by
  constructor
  case contexts => exact shared ▸ sound.contexts.same same
  case indexed => exact mm.symm ▸ sound.indexed
  case nonnull => exact mm.symm ▸ sound.nonnull
  case spare => exact spare
  case phase => exact phase
  case distinct =>
    change ∀ left right arc, state.shared.contexts.live left = some arc → state.shared.contexts.live right = some arc → _
    rw [shared, same.live]
    exact sound.distinct
  case cached =>
    intro thread arc context idx live found selected
    change state.shared.contexts.live thread = some arc at live
    change state.shared.contexts.shared[arc]? = some context at found
    rw [shared] at live found
    rw [same.live] at live
    obtain ⟨old, there, before⟩ := kept arc context idx found selected
    change ∃ page, state.shared.mm.slot idx = some page ∧ _
    rw [mm]
    exact sound.cached thread arc old idx live there before

theorem Sound.setRoots {arc : Nat} {context final : ContextShared} (sound : owned.Sound)
    (found : owned.state.shared.contexts.shared[arc]? = some context) (same : final.mmContext = context.mmContext) :
    Sound ⟨owned.state.setContext arc final, owned.owner⟩ := by
  refine sound.same Contexts.sameMap_setShared ?_ rfl rfl sound.spare sound.phase
  intro other later idx there selected
  rw [Contexts.shared_setShared found] at there
  split at there
  · next same' =>
      cases there
      exact ⟨context, same' ▸ found, same ▸ selected⟩
  · exact ⟨later, there, selected⟩

theorem Sound.reserved {thread : Thread} {arc size : Nat} {context final : ContextShared} {mmContext : Mm.Context}
    {mm : PageTable} {result : Option (Nat × Nat)} {memory : Memory} (sound : owned.Sound)
    (live : owned.state.shared.contexts.live thread = some arc)
    (found : owned.state.shared.contexts.shared[arc]? = some context)
    (served : context.mmContext.allocFromPageTable owned.state.shared.mm size = .ok (result, mmContext, mm))
    (same : final.mmContext = mmContext) :
    Sound ⟨{ owned.state.reserved arc final mm with memory }, fun idx =>
      if opens owned.state.shared.mm mm idx then owned.state.shared.contexts.live thread else owned.owner idx⟩ := by
  have fits := sound.fits live found
  obtain ⟨indexed, base, fits', keeps⟩ := alloc_keeps sound.indexed fits served
  constructor
  case contexts => exact sound.contexts.same Contexts.sameMap_setShared
  case distinct => exact sound.distinct
  case indexed => exact indexed
  case nonnull => exact base.symm ▸ sound.nonnull
  case spare => exact sound.spare
  case phase => exact sound.phase
  case cached =>
    have old (other : Thread) (otherArc : Nat) (there : ContextShared) (idx : Nat)
        (own : owned.state.shared.contexts.live other = some otherArc)
        (at_other : owned.state.shared.contexts.shared[otherArc]? = some there)
        (selected : there.mmContext.localBufferPage = some idx) :
        ∃ page, mm.slot idx = some page ∧ page.kind = .small ∧
          (if opens owned.state.shared.mm mm idx then owned.state.shared.contexts.live thread
            else owned.owner idx) = some otherArc := by
      obtain ⟨page, inSlot, small, owner⟩ := sound.cached other otherArc there idx own at_other selected
      obtain ⟨later, inLater, kind⟩ := keeps idx page inSlot
      rw [opens_eq_false (sound.indexed.below inSlot)]
      exact ⟨later, inLater, kind.trans small, owner⟩
    intro other otherArc there idx own at_other selected
    change (owned.state.shared.contexts.setShared arc final).shared[otherArc]? = some there at at_other
    rw [Contexts.shared_setShared found] at at_other
    split at at_other
    · next sameArc =>
        subst sameArc
        cases at_other
        rw [same] at selected
        rcases alloc_cached sound.indexed fits served selected with before | opened
        · exact old other otherArc context idx own found before
        · obtain ⟨page, inSlot, small⟩ := fits' idx selected
          refine ⟨page, inSlot, small, ?_⟩
          simp only [opened, if_true]
          exact live
    · exact old other otherArc there idx own at_other selected

theorem PhaseSound.mark {types : Types} {heap : HeapInfo} {bit : Bit} {marking later : Marking} {memory after : Memory}
    (sound : PhaseSound (.marking heap bit marking))
    (stepped : marking.step manager types heap bit memory = .ok (some (after, later))) :
    PhaseSound (.marking heap bit later) := by
  rcases Marking.step_cases stepped with ⟨obj, _, marked⟩ | ⟨obj, _, _, scanned⟩ | ⟨_, _, _, _, _, rfl⟩ |
    ⟨_, _, _, _, _, _, rfl⟩
  · simp only [Marking.mark] at marked
    split at marked <;> cases marked <;> exact sound
  · obtain ⟨_, _, _, _, _, _, _, served, _, _, _, rfl⟩ := Marking.scan_eq_ok.mp scanned
    obtain ⟨indexed, nonnull, fits⟩ := sound
    obtain ⟨indexed', base, fits', _⟩ := alloc_keeps indexed fits served
    exact ⟨indexed', base.symm ▸ nonnull, fits'⟩
  · exact sound
  · exact sound

theorem Sound.collector {action : Collector.Action} (sound : owned.Sound)
    (flushed : owned.Flushed (.collector action : Action Request Thread))
    (acts : Collector.Acts manager owned.state action state) :
    Sound ⟨state, owned.ownerAfter (.collector action : Action Request Thread) state⟩ := by
  have unchanged (arc : Nat) (context : ContextShared) (idx : Nat)
      (found : owned.state.shared.contexts.shared[arc]? = some context)
      (selected : context.mmContext.localBufferPage = some idx) :
      ∃ old, owned.state.shared.contexts.shared[arc]? = some old ∧ old.mmContext.localBufferPage = some idx :=
    ⟨context, found, selected⟩
  have phase := sound.phase
  cases acts with
  | flush =>
      refine sound.same Contexts.sameMap_flush ?_ rfl rfl sound.spare trivial
      intro arc context idx found selected
      obtain ⟨old, there, _, same | none⟩ := Contexts.shared_flush found
      · exact ⟨old, there, same ▸ selected⟩
      · rw [none] at selected
        cases selected
  | step1 _ received =>
      have spare := sound.spare
      rw [received] at spare
      refine sound.same ⟨rfl, rfl, rfl⟩ unchanged rfl rfl (fun table member => spare table (List.mem_cons_of_mem _ member)) ?_
      have second := spare _ List.mem_cons_self
      exact ⟨second.clear, second.2, Mm.Context.Fits.new _⟩
  | mark marks stepped =>
      rw [marks] at phase
      exact sound.same ⟨rfl, rfl, rfl⟩ unchanged rfl rfl sound.spare (phase.mark stepped)
  | step3 marks _ prepared =>
      rw [marks] at phase
      obtain ⟨indexed, nonnull, _⟩ := phase
      obtain ⟨indexed', base⟩ := donatePages_eq_ok sound.indexed indexed prepared.donated
      obtain ⟨same, _⟩ := Contexts.mapRoots_eq_ok prepared.mapped
      constructor
      case contexts => exact sound.contexts.same same
      case distinct =>
        intro left right arc leftLive rightLive
        simp only [Collector.swapped, same.live] at leftLive rightLive
        exact sound.distinct left right arc leftLive rightLive
      case indexed => exact indexed'
      case nonnull => exact base.symm ▸ nonnull
      case spare => exact sound.spare
      case phase => exact Indexed.spare sound.indexed sound.nonnull
      case cached =>
        intro thread arc context idx live found selected
        simp only [Collector.swapped, same.live] at live
        obtain ⟨old, there, kept⟩ := Contexts.mmContext_mapRoots prepared.mapped found
        rw [kept, flushed rfl thread arc old live there] at selected
        cases selected
  | resolve relocates resolved =>
      rw [relocates] at phase
      obtain ⟨workDone, rfl⟩ := CopierActive.resolveFault_eq_ok resolved
      exact sound.same ⟨rfl, rfl, rfl⟩ unchanged rfl rfl sound.spare phase
  | finish relocates =>
      rw [relocates] at phase
      exact sound.same ⟨rfl, rfl, rfl⟩ unchanged rfl rfl sound.spare phase
  | step5 cleared =>
      rw [cleared] at phase
      refine sound.same ⟨rfl, rfl, rfl⟩ unchanged rfl rfl ?_ trivial
      intro table member
      rcases List.mem_append.mp member with old | last
      · exact sound.spare table old
      · exact List.mem_singleton.mp last ▸ phase

theorem ownerAfter_same {thread : Thread} {action : MutatorAction Request}
    (same : state.shared.mm = owned.state.shared.mm) : owned.ownerAfter (.mutator thread action) state = owned.owner := by
  funext idx
  simp only [ownerAfter, same]
  by_cases below : idx < owned.state.shared.mm.currentBasePage
  · rw [opens_eq_false below]
    rfl
  · simp [opens, below]

theorem Sound.start {firstBase secondBase nrPages : Nat} {types : Types} (firstNonnull : firstBase ≠ 0)
    (secondNonnull : secondBase ≠ 0) :
    Sound (start (System.new firstBase secondBase nrPages types : System Types Thread)) where
  contexts := .new
  distinct := by
    intro left right arc live
    cases live
  indexed := (Mm.Allocator.placed_new firstBase nrPages).indexed
  nonnull := firstNonnull
  spare := by
    intro table member
    rw [List.mem_singleton.mp member]
    exact ⟨List.length_replicate, secondNonnull⟩
  phase := trivial
  cached := by
    intro thread arc context idx live
    cases live

theorem Sound.operate {thread : Thread} {arc : Nat} {context : ContextShared} {action : MutatorAction Request}
    (sound : owned.Sound) (live : owned.state.shared.contexts.live thread = some arc)
    (found : owned.state.shared.contexts.shared[arc]? = some context)
    (operates : System.Operates manager change owned.state arc context action state) :
    Sound ⟨state, owned.ownerAfter (.mutator thread action) state⟩ := by
  cases operates with
  | full _ served => exact sound.reserved live found served rfl
  | alloc allocated =>
      refine sound.reserved live found allocated.served ?_
      obtain ⟨_, rfl⟩ := System.hold_eq_some allocated.held
      rfl
  | load _ held =>
      obtain ⟨_, rfl⟩ := System.hold_eq_some held
      rw [ownerAfter_same]
      · exact sound.setRoots found rfl
      · rfl
  | store =>
      rw [ownerAfter_same]
      · exact sound.same ⟨rfl, rfl, rfl⟩ (fun _ context _ there selected => ⟨context, there, selected⟩) rfl rfl
          sound.spare sound.phase
      · rfl
  | assign _ held =>
      obtain ⟨_, rfl⟩ := System.hold_eq_some held
      rw [ownerAfter_same]
      · exact sound.setRoots found rfl
      · rfl
  | request =>
      rw [ownerAfter_same]
      · exact sound.same ⟨rfl, rfl, rfl⟩ (fun _ context _ there selected => ⟨context, there, selected⟩) rfl rfl
          sound.spare sound.phase
      · rfl

section Steps

variable [DecidableEq Thread]

theorem Sound.newContext {thread : Thread} {slots : Nat} {contexts : Contexts Thread} (sound : owned.Sound)
    (made : owned.state.shared.contexts.newContext thread (List.replicate slots none) = some contexts) :
    Sound ⟨owned.state.withContexts contexts, owned.owner⟩ := by
  obtain ⟨free, _, shared, live⟩ := Contexts.newContext_eq_some made
  have fresh (other : Thread) (arc : Nat) (own : owned.state.shared.contexts.live other = some arc) :
      arc < owned.state.shared.contexts.shared.length :=
    sound.contexts.made other arc (sound.contexts.kept other arc own)
  have lives (other : Thread) (arc : Nat) (own : contexts.live other = some arc) :
      (other = thread ∧ arc = owned.state.shared.contexts.shared.length) ∨
        owned.state.shared.contexts.live other = some arc := by
    rw [live] at own
    by_cases same : other = thread
    · subst same
      rw [Function.update_self, Option.some.injEq] at own
      exact .inl ⟨rfl, own.symm⟩
    · rw [Function.update_of_ne same] at own
      exact .inr own
  constructor
  case contexts => exact sound.contexts.newContext made
  case indexed => exact sound.indexed
  case nonnull => exact sound.nonnull
  case spare => exact sound.spare
  case phase => exact sound.phase
  case distinct =>
    intro left right arc leftLive rightLive
    rcases lives left arc leftLive with ⟨rfl, new⟩ | leftOld
    · rcases lives right arc rightLive with ⟨rfl, _⟩ | rightOld
      · rfl
      · exact absurd (fresh right arc rightOld) (by omega)
    · rcases lives right arc rightLive with ⟨rfl, new⟩ | rightOld
      · exact absurd (fresh left arc leftOld) (by omega)
      · exact sound.distinct left right arc leftOld rightOld
  case cached =>
    intro other arc context idx own found selected
    change contexts.shared[arc]? = some context at found
    rw [shared] at found
    rcases lives other arc own with ⟨rfl, rfl⟩ | old
    · rw [List.getElem?_concat_length, Option.some.injEq] at found
      rw [← found] at selected
      cases selected
    · rw [List.getElem?_append_left (fresh other arc old)] at found
      exact sound.cached other arc context idx old found selected

theorem Sound.dropContext {thread : Thread} {contexts : Contexts Thread} (sound : owned.Sound)
    (dropped : owned.state.shared.contexts.dropContext thread = some contexts) :
    Sound ⟨owned.state.withContexts contexts, owned.owner⟩ := by
  have consistent := sound.contexts.dropContext dropped
  obtain ⟨_, rfl⟩ := Contexts.dropContext_eq_some dropped
  have lives (other : Thread) (arc : Nat)
      (own : Function.update owned.state.shared.contexts.live thread none other = some arc) :
      owned.state.shared.contexts.live other = some arc := by
    by_cases same : other = thread
    · subst same
      rw [Function.update_self] at own
      cases own
    · rwa [Function.update_of_ne same] at own
  constructor
  case contexts => exact consistent
  case indexed => exact sound.indexed
  case nonnull => exact sound.nonnull
  case spare => exact sound.spare
  case phase => exact sound.phase
  case distinct =>
    intro left right arc leftLive rightLive
    exact sound.distinct left right arc (lives left arc leftLive) (lives right arc rightLive)
  case cached =>
    intro other arc context idx own found selected
    exact sound.cached other arc context idx (lives other arc own) found selected

theorem Sound.step {action : Action Request Thread} (sound : owned.Sound) (flushed : owned.Flushed action)
    (taken : Owned.step manager change owned action = some next) : next.Sound := by
  obtain ⟨state, stepped, rfl⟩ := Option.map_eq_some_iff.mp taken
  cases System.step_eq_some stepped with
  | newContext made =>
      rw [ownerAfter_same]
      · exact sound.newContext made
      · rfl
  | dropContext dropped =>
      rw [ownerAfter_same]
      · exact sound.dropContext dropped
      · rfl
  | operate live found operates => exact sound.operate live found operates
  | collector acted => exact sound.collector flushed (Collector.act_eq_ok acted)

/-- The cached pages belong to the space that is in use, in every state of a run, exactly when
no context has one at any swap of the run. -/
theorem cached_pages_belong_iff {firstBase secondBase nrPages : Nat} {types : Types}
    {actions : List (Action Request Thread)} {final : Owned Types Thread} (firstNonnull : firstBase ≠ 0)
    (secondNonnull : secondBase ≠ 0)
    (ran : Transition.run (step manager change) (start (System.new firstBase secondBase nrPages types)) actions =
      some final) :
    Transition.Throughout (step manager change) (start (System.new firstBase secondBase nrPages types)) actions Belongs ↔
      Transition.EachStep (step manager change) (start (System.new firstBase secondBase nrPages types)) actions
        Flushed := by
  constructor
  · intro throughout
    refine throughout.eachStep ran (fun _ => True) trivial (fun _ _ _ _ _ => trivial) ?_
    intro owned action next _ before taken after swaps thread arc context live found
    subst swaps
    cases selected : context.mmContext.localBufferPage with
    | none => rfl
    | some idx =>
        -- Nobody owns a page of the space that comes in, but the index stays cached.
        obtain ⟨state, stepped, rfl⟩ := Option.map_eq_some_iff.mp taken
        cases System.step_eq_some stepped with
        | collector acted =>
            cases Collector.act_eq_ok acted with
            | step3 marks ended prepared =>
                obtain ⟨same, _⟩ := Contexts.mapRoots_eq_ok prepared.mapped
                obtain ⟨later, there, kept⟩ := Contexts.mmContext_kept prepared.mapped found
                obtain ⟨_, _, _, own⟩ := after.cached thread arc later idx
                  (by simpa only [Collector.swapped, same.live] using live) there (kept ▸ selected)
                cases own
  · intro each
    have sound := each.throughout Sound (.start firstNonnull secondNonnull)
      fun _ _ _ sound flushed taken => sound.step flushed taken
    intro past rest owned split reached
    exact (sound past rest owned split reached).belongs

/-- The runs of one mutator that allocates small plain data. -/
def oneMutator : Owned Unit Nat := start (System.new 4194304 8388608 2 ())

def oneMutatorStep : Owned Unit Nat → Action Unit Nat → Option (Owned Unit Nat) :=
  step TypeManager.pointerArrays fun _ types => .ok types

/-- The mutator caches a page behind the flush, lets its object go, and the spaces are swapped:
it then finds no page behind its index. -/
def staleRun : List (Action Unit Nat) :=
  [.mutator 0 (.newContext 1), .collector .flush, .mutator 0 (.alloc (.plainOldData 8) 0 [] 0),
    .mutator 0 (.assign 0 none), .collector .step1, .collector .step3]

theorem stale_page_cached :
    ∃ owned context, Transition.run oneMutatorStep oneMutator staleRun = some owned ∧
      owned.state.shared.contexts.live 0 = some 0 ∧ owned.state.shared.contexts.shared[0]? = some context ∧
      context.mmContext.allocFromPageTable owned.state.shared.mm 24 = .error .unwrapNone ∧ ¬ owned.Belongs := by
  have seen : (Transition.run oneMutatorStep oneMutator staleRun).map (fun owned =>
      (owned.state.shared.contexts.live 0, owned.state.shared.contexts.shared, owned.state.shared.mm)) =
      some (some 0, [⟨⟨some 0⟩, [none]⟩], PageTable.new 8388608 2) := by
    decide +kernel
  obtain ⟨owned, ran, view⟩ := Option.map_eq_some_iff.mp seen
  obtain ⟨live, rest⟩ := Prod.mk.inj view
  obtain ⟨shared, mm⟩ := Prod.mk.inj rest
  have found : owned.state.shared.contexts.shared[0]? = some ⟨⟨some 0⟩, [none]⟩ := by
    rw [shared]
    rfl
  refine ⟨owned, ⟨⟨some 0⟩, [none]⟩, ran, live, found, ?_, ?_⟩
  · rw [mm]
    decide +kernel
  · intro belongs
    obtain ⟨page, inSlot, _⟩ := belongs.cached 0 0 _ 0 live found rfl
    rw [mm] at inSlot
    cases inSlot

/-- A mutator that allocates before the flush and behind the swap. -/
def freshRun : List (Action Unit Nat) :=
  [.mutator 0 (.newContext 1), .mutator 0 (.alloc (.plainOldData 8) 0 [] 0), .collector .flush, .collector .step1,
    .collector .mark, .collector .mark, .collector .mark, .collector .mark, .collector .step3,
    .collector (.resolve 10485760), .mutator 0 (.alloc (.plainOldData 8) 0 [] 0)]

/-- A check that no context has a cached page when the spaces are swapped. -/
def flushedStep (owned : Owned Unit Nat) : Action Unit Nat → Bool
  | .collector .step3 => owned.state.shared.contexts.shared.all fun context => context.mmContext.localBufferPage.isNone
  | _ => true

theorem flushedStep_sound (owned : Owned Unit Nat) (action : Action Unit Nat) (checked : flushedStep owned action = true) :
    Flushed owned action := by
  rintro rfl thread arc context _ found
  exact Option.isNone_iff_eq_none.mp (List.all_eq_true.mp checked context (List.mem_of_getElem? found))

theorem cached_pages_belong_fresh : Transition.Throughout oneMutatorStep oneMutator freshRun Belongs := by
  have returns : (Transition.run oneMutatorStep oneMutator freshRun).isSome = true := by
    decide +kernel
  obtain ⟨final, ran⟩ := Option.isSome_iff_exists.mp returns
  refine (cached_pages_belong_iff (by decide) (by decide) ran).mpr ?_
  exact Transition.eachStep_of_everyStep flushedStep_sound (by decide +kernel)

end Steps

end Owned

end UwUGC.State
