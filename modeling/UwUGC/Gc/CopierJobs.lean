import UwUGC.Gc.Copier
import UwUGC.Lib.Transition
import UwUGC.Mm.AllocationRuns
import UwUGC.Mm.PageResolution
import UwUGC.Object.Shape
import Mathlib.Data.List.Nodup

/-! The jobs of `finish`: one for each page of to-space, and one for each fault. A job that
finds the bit of its page set leaves; another one sets it and fills the page later. -/

set_option autoImplicit false

namespace UwUGC.Gc

open PageTable

inductive Filling where
  | zeropage (pageId : Nat)
  | relocate (pageId : Nat)
deriving DecidableEq, Repr

/-- The bit that guards it. -/
def Filling.pageId : Filling → Nat
  | .zeropage pageId | .relocate pageId => pageId

namespace CopierActive

/-- `resolve_fault` up to the choice of what to do. -/
def chooseFilling (copier : CopierActive) (addr : Nat) : Except Panic Filling := do
  let pageId := (← checkedSub addr copier.heap.toSpace) >>> basePageShift
  if pageId ≥ copier.zeroPageStart then .ok (.zeropage pageId)
  else
    match ← copier.pageTable.resolveToPage addr with
    | none => .ok (.zeropage pageId)
    | some pageId => do
        let _ ← unwrap (← copier.pageTable.getPage pageId)
        .ok (.relocate pageId)

variable {Types : Type} (manager : TypeManager Types) (types : Types)

/-- What stands behind the guard of a page. -/
def perform (copier : CopierActive) (memory : Memory) : Filling → Except Panic Memory
  | .zeropage pageId => .ok (copier.zeropage memory pageId)
  | .relocate pageId => do
      let page ← unwrap (← copier.pageTable.getPage pageId)
      relocatePage manager types copier memory page

/-- A fault is resolved by the test-and-set of its page, and by the filling behind it if the bit
was not set. -/
theorem resolveFault_eq_claim (copier : CopierActive) (memory : Memory) (addr : Nat) :
    copier.resolveFault manager types memory addr = (do
      let filling ← copier.chooseFilling addr
      let (done, claimed) ← copier.claim filling.pageId
      if done then .ok (memory, claimed) else .ok (← copier.perform manager types memory filling, claimed)) := by
  unfold resolveFault chooseFilling
  cases checkedSub addr copier.heap.toSpace with
  | error panic => rfl
  | ok offset =>
      simp only [bind, Except.bind]
      split
      · rfl
      · cases copier.pageTable.resolveToPage addr with
        | error panic => rfl
        | ok resolved =>
            cases resolved with
            | none => rfl
            | some pageId =>
                simp only
                cases found : copier.pageTable.getPage pageId with
                | error panic => rfl
                | ok slot =>
                    cases slot with
                    | none => rfl
                    | some page => simp only [unwrap_some, perform, found, doRelocate, Filling.pageId, bind, Except.bind]

/-- The bits have no part in what a filling does. -/
theorem copyRecords_claimed (copier : CopierActive) (workDone : AtomicBitmap) (memory : Memory) (pageRange : Span)
    (records : List RelocationRecord) (buffer : Memory) :
    copyRecords manager types { copier with workDone } memory pageRange records buffer =
      copyRecords manager types copier memory pageRange records buffer := by
  induction records generalizing buffer with
  | nil => rfl
  | cons record rest ih =>
      simp only [copyRecords, ih]
      rfl

theorem perform_claimed (copier : CopierActive) (workDone : AtomicBitmap) (memory : Memory) (filling : Filling) :
    { copier with workDone }.perform manager types memory filling = copier.perform manager types memory filling := by
  cases filling with
  | zeropage pageId => rfl
  | relocate pageId => simp only [perform, relocatePage, copyRecords_claimed]

end CopierActive

/-- The jobs by what is left of them, the memory that they fill, and what they have filled. -/
structure Jobs where
  copier : CopierActive
  memory : Memory
  /-- The pages that the eager loop has come to. -/
  spawned : Nat
  /-- Whether the loop that waits for faults still runs. -/
  polling : Bool
  faults : List Nat
  filling : List Filling
  filled : List Filling

namespace Jobs

inductive Action where
  | spawn
  | fault (addr : Nat)
  | leave
  | resolve (addr : Nat)
  | fill (filling : Filling)
deriving DecidableEq, Repr

def start (copier : CopierActive) (memory : Memory) : Jobs where
  copier := copier
  memory := memory
  spawned := 0
  polling := true
  faults := []
  filling := []
  filled := []

/-- The addresses that can fault. -/
def InToSpace (copier : CopierActive) (addr : Nat) : Prop :=
  copier.heap.toSpace ≤ addr ∧ addr < copier.heap.toSpace + copier.pageTable.nrPages * basePageSize

instance (copier : CopierActive) (addr : Nat) : Decidable (InToSpace copier addr) :=
  inferInstanceAs (Decidable (_ ∧ _))

def spawn (jobs : Jobs) : Option Jobs :=
  if jobs.spawned < jobs.copier.pageTable.nrPages then
    match jobs.copier.pageTable.getPage jobs.spawned with
    | .error _ => none
    | .ok none => some { jobs with spawned := jobs.spawned + 1 }
    | .ok (some page) => some { jobs with spawned := jobs.spawned + 1, faults := jobs.faults ++ [page.start] }
  else none

/-- The test-and-set is one step of its own; the page is filled behind it. -/
def resolve (jobs : Jobs) (addr : Nat) : Option Jobs :=
  if addr ∈ jobs.faults then
    match jobs.copier.chooseFilling addr with
    | .error _ => none
    | .ok filling =>
        match jobs.copier.claim filling.pageId with
        | .error _ => none
        | .ok (done, claimed) =>
            let left := { jobs with copier := claimed, faults := jobs.faults.erase addr }
            some (if done then left else { left with filling := jobs.filling ++ [filling] })
  else none

variable {Types : Type} (manager : TypeManager Types) (types : Types)

def fill (jobs : Jobs) (filling : Filling) : Option Jobs :=
  if filling ∈ jobs.filling then
    match jobs.copier.perform manager types jobs.memory filling with
    | .error _ => none
    | .ok memory =>
        some { jobs with memory, filling := jobs.filling.erase filling, filled := jobs.filled ++ [filling] }
  else none

def step (jobs : Jobs) : Action → Option Jobs
  | .spawn => jobs.spawn
  | .fault addr =>
      if jobs.polling = true ∧ InToSpace jobs.copier addr then some { jobs with faults := jobs.faults ++ [addr] }
      else none
  | .leave =>
      -- The byte that ends the loop is written once every page has its job.
      if jobs.spawned = jobs.copier.pageTable.nrPages then some { jobs with polling := false } else none
  | .resolve addr => jobs.resolve addr
  | .fill filling => jobs.fill manager types filling

/-- `finish` returns once every job is done. -/
def Returned (jobs : Jobs) : Prop :=
  jobs.spawned = jobs.copier.pageTable.nrPages ∧ jobs.polling = false ∧ jobs.faults = [] ∧ jobs.filling = []

/-- The page table of to-space. -/
structure Tiles (table : PageTable) : Prop where
  placed : table.Placed
  covered : table.Covered

/-- Every page is in the list once, with what it takes. -/
structure FilledOnce (table : PageTable) (filled : List Filling) : Prop where
  relocated : ∀ idx page, table.slot idx = some page → filled.count (.relocate idx) = 1
  zeroed : ∀ pageId, filled.count (.zeropage pageId) ≤ 1
  unzeroed : ∀ pageId idx page, table.slot idx = some page → idx ≤ pageId → pageId < idx + page.nrPages →
    .zeropage pageId ∉ filled
  pages : ∀ pageId, .relocate pageId ∈ filled → ∃ page, table.slot pageId = some page

/-- A filling that suits the page it is for. -/
def Suits (table : PageTable) : Filling → Prop
  | .zeropage pageId => table.currentBasePage ≤ pageId ∧ pageId < table.nrPages
  | .relocate pageId => ∃ page, table.slot pageId = some page

/-- The fillings that were begun, whether they are finished or not. -/
def begun (jobs : Jobs) : List Filling := jobs.filling ++ jobs.filled

/-- The fillings one behind the other, as a copier without a bit set performs them. -/
def Performs (copier : CopierActive) (memory : Memory) (filled : List Filling) (after : Memory) : Prop :=
  filled.foldlM (copier.perform manager types) memory = .ok after

/-- A bit is set when the filling that it guards is begun. -/
structure Invariant (heap : HeapInfoLater) (table : PageTable) (jobs : Jobs) : Prop where
  sameHeap : jobs.copier.heap = heap
  sameTable : jobs.copier.pageTable = table
  used : jobs.copier.zeroPageStart = table.currentBasePage
  sized : jobs.copier.workDone.Sized
  length : jobs.copier.workDone.len = table.nrPages
  inSpace : ∀ addr ∈ jobs.faults, InToSpace jobs.copier addr
  suits : ∀ filling ∈ jobs.begun, Suits table filling
  distinct : (jobs.begun.map Filling.pageId).Nodup
  bits : ∀ pageId, jobs.copier.workDone.bit pageId = true ↔ pageId ∈ jobs.begun.map Filling.pageId
  eager : ∀ idx page, idx < jobs.spawned → table.slot idx = some page →
    page.start ∈ jobs.faults ∨ jobs.copier.workDone.bit idx = true

variable {manager : TypeManager Types} {types : Types}
variable {heap : HeapInfoLater} {table : PageTable} {jobs next : Jobs} {addr : Nat}

theorem Suits.pageId_lt (placed : table.Placed) {filling : Filling} (suits : Suits table filling) :
    filling.pageId < table.nrPages := by
  cases filling with
  | zeropage pageId => exact suits.2
  | relocate pageId =>
      obtain ⟨page, found⟩ := suits
      exact Nat.lt_of_lt_of_le (placed.indexed.below found) placed.bounded

theorem Suits.unique (placed : table.Placed) {left right : Filling} (suitsLeft : Suits table left)
    (suitsRight : Suits table right) (same : left.pageId = right.pageId) : left = right := by
  cases left with
  | zeropage pageId =>
      cases right with
      | zeropage _ => exact congrArg Filling.zeropage same
      | relocate idx =>
          obtain ⟨page, found⟩ := suitsRight
          have below := placed.indexed.below found
          simp only [Filling.pageId] at same
          exact absurd suitsLeft.1 (by omega)
  | relocate idx =>
      cases right with
      | relocate _ => exact congrArg Filling.relocate same
      | zeropage pageId =>
          obtain ⟨page, found⟩ := suitsLeft
          have below := placed.indexed.below found
          simp only [Filling.pageId] at same
          exact absurd suitsRight.1 (by omega)

/-- In a table without gaps an address is resolved to its page, or to its base page behind all of them. -/
theorem Invariant.chooses (invariant : Invariant heap table jobs) (tiles : Tiles table)
    (base : table.baseAddr = heap.toSpace) (inside : InToSpace jobs.copier addr) :
    ∃ filling, jobs.copier.chooseFilling addr = .ok filling ∧ Suits table filling ∧
      ∀ idx page, table.slot idx = some page → page.range.Contains addr → filling = .relocate idx := by
  obtain ⟨above, below⟩ := inside
  rw [invariant.sameHeap, ← base] at above below
  rw [invariant.sameTable] at below
  have bounded : (addr - table.baseAddr) / basePageSize < table.nrPages := by
    rw [Nat.div_lt_iff_lt_mul basePageSize_pos]
    omega
  have offset : checkedSub addr jobs.copier.heap.toSpace = .ok (addr - table.baseAddr) := by
    rw [invariant.sameHeap, ← base]
    exact if_pos above
  simp only [CopierActive.chooseFilling, offset, bind, Except.bind, shift_eq_div, invariant.used,
    invariant.sameTable]
  by_cases behind : table.currentBasePage ≤ (addr - table.baseAddr) / basePageSize
  · refine ⟨_, if_pos behind, ⟨behind, bounded⟩, ?_⟩
    intro idx page found contains
    obtain ⟨_, _, upper⟩ := base_page_of_contains tiles.placed.arranged found contains
    have within := tiles.placed.within found
    omega
  · obtain ⟨idx, page, found, lower, upper⟩ := tiles.covered _ (Nat.lt_of_not_le behind)
    have contains := contains_of_base_page tiles.placed.arranged found above lower upper
    have resolved := resolveToPage_found tiles.placed.arranged found contains
    refine ⟨.relocate idx, ?_, ⟨page, found⟩, ?_⟩
    · simp only [ge_iff_le, if_neg behind, resolved, getPage_eq_ok_some.mpr found, unwrap_some]
    · intro other there otherFound otherContains
      have same := resolveToPage_found tiles.placed.arranged otherFound otherContains
      rw [resolved] at same
      cases same
      rfl

theorem invariant_start {relocRegistry : FrozenRegistry} {fromMm : PageTable} {memory : Memory} :
    Invariant heap table (start (.start heap relocRegistry fromMm table) memory) where
  sameHeap := rfl
  sameTable := rfl
  used := rfl
  sized := AtomicBitmap.Sized.new _
  length := rfl
  inSpace := by simp [start]
  suits := by simp [start, begun]
  distinct := by simp [start, begun]
  bits := by
    intro pageId
    simp [start, begun, CopierActive.start, AtomicBitmap.bit_new]
  eager := by
    intro idx page early
    exact absurd early (Nat.not_lt_zero _)

theorem Invariant.spawn (invariant : Invariant heap table jobs) (tiles : Tiles table)
    (base : table.baseAddr = heap.toSpace) (taken : jobs.spawn = some next) : Invariant heap table next := by
  unfold Jobs.spawn at taken
  rw [invariant.sameTable] at taken
  split at taken
  · split at taken
    · cases taken
    · next empty =>
        cases taken
        refine { invariant with eager := ?_ }
        intro idx page early found
        rcases Nat.lt_succ_iff_lt_or_eq.mp early with before | here
        · exact invariant.eager idx page before found
        · rw [here] at found
          rw [getPage_eq_ok_some.mpr found] at empty
          cases empty
    · next page there =>
        cases taken
        have found := getPage_eq_ok_some.mp there
        refine { invariant with inSpace := ?_, eager := ?_ }
        · intro addr member
          rcases List.mem_append.mp member with old | new
          · exact invariant.inSpace addr old
          · cases List.mem_singleton.mp new
            have start := tiles.placed.start found
            have within := tiles.placed.within found
            have nonempty := tiles.placed.nonempty found
            have bounded := tiles.placed.bounded
            have below : jobs.spawned * basePageSize < table.nrPages * basePageSize :=
              Nat.mul_lt_mul_of_pos_right (by omega) basePageSize_pos
            simp only [InToSpace, invariant.sameHeap, invariant.sameTable, start, base]
            omega
        · intro idx other early otherFound
          rcases Nat.lt_succ_iff_lt_or_eq.mp early with before | here
          · exact (invariant.eager idx other before otherFound).imp_left (List.mem_append_left _)
          · rw [here, found] at otherFound
            cases otherFound
            exact .inl (List.mem_append_right _ (List.mem_singleton.mpr rfl))
  · cases taken

theorem Invariant.reorder (invariant : Invariant heap table jobs) {filling filled : List Filling} {memory : Memory}
    (same : (filling ++ filled).Perm jobs.begun) :
    Invariant heap table { jobs with memory, filling, filled } where
  sameHeap := invariant.sameHeap
  sameTable := invariant.sameTable
  used := invariant.used
  sized := invariant.sized
  length := invariant.length
  inSpace := invariant.inSpace
  suits := fun other member => invariant.suits other (same.mem_iff.mp member)
  distinct := (same.map _).nodup_iff.mpr invariant.distinct
  bits := fun pageId => (invariant.bits pageId).trans (same.map _).mem_iff.symm
  eager := invariant.eager

theorem Invariant.resolve (invariant : Invariant heap table jobs) (tiles : Tiles table)
    (base : table.baseAddr = heap.toSpace) (taken : jobs.resolve addr = some next) :
    Invariant heap table next := by
  unfold Jobs.resolve at taken
  split at taken
  · next member =>
      obtain ⟨filling, chosen, suits, ofPage⟩ := invariant.chooses tiles base (invariant.inSpace addr member)
      have inside : filling.pageId < jobs.copier.workDone.len := by
        rw [invariant.length]
        exact suits.pageId_lt tiles.placed
      obtain ⟨workDone, set, sized, length, bits⟩ := AtomicBitmap.set_true_eq_ok invariant.sized inside
      simp only [chosen, CopierActive.claim_eq_ok.mpr ⟨workDone, set, rfl⟩] at taken
      have inSpace : ∀ other ∈ jobs.faults.erase addr, InToSpace jobs.copier other :=
        fun other left => invariant.inSpace other (List.mem_of_mem_erase left)
      -- The job of a page is gone only when its bit is set.
      have eager : ∀ idx page, idx < jobs.spawned → table.slot idx = some page →
          page.start ∈ jobs.faults.erase addr ∨ workDone.bit idx = true := by
        intro idx page early found
        by_cases here : page.start = addr
        · right
          have contains : page.range.Contains addr := by
            have nonempty := Nat.mul_pos (tiles.placed.nonempty found) basePageSize_pos
            rw [← FlexPage.size_of_nrPages] at nonempty
            simp only [Span.Contains, Span.stop, FlexPage.range]
            omega
          rw [ofPage idx page found contains, Filling.pageId] at bits
          simp [bits]
        · rcases invariant.eager idx page early found with waits | done
          · exact .inl ((List.mem_erase_of_ne here).mpr waits)
          · exact .inr (by simp [bits, done])
      cases done : jobs.copier.workDone.bit filling.pageId with
      | true =>
          simp only [done, if_true, Option.some.injEq] at taken
          subst taken
          refine { invariant with
            sized := sized, length := length.trans invariant.length, inSpace := inSpace, bits := ?_, eager := eager }
          intro pageId
          refine Iff.trans ?_ (invariant.bits pageId)
          rw [bits]
          by_cases this : pageId = filling.pageId
          · simp [this, done]
          · simp [this]
      | false =>
          simp only [done, Bool.false_eq_true, if_false, Option.some.injEq] at taken
          subst taken
          have more : ((jobs.filling ++ [filling]) ++ jobs.filled).Perm (filling :: jobs.begun) := by
            rw [List.append_assoc, List.singleton_append]
            exact List.perm_middle
          have fresh : filling.pageId ∉ jobs.begun.map Filling.pageId := by
            rw [← invariant.bits, done]
            exact Bool.false_ne_true
          refine { invariant with
            sized := sized, length := length.trans invariant.length, inSpace := inSpace, eager := eager,
            suits := ?_, distinct := ?_, bits := ?_ }
          · intro other begun
            rcases List.mem_cons.mp (more.mem_iff.mp begun) with new | old
            · exact new ▸ suits
            · exact invariant.suits other old
          · exact (more.map _).nodup_iff.mpr (List.nodup_cons.mpr ⟨fresh, invariant.distinct⟩)
          · intro pageId
            refine Iff.trans ?_ (more.map Filling.pageId).mem_iff.symm
            rw [bits, List.map_cons, List.mem_cons, ← invariant.bits, Bool.or_eq_true, decide_eq_true_eq]
  · cases taken

theorem fill_eq_some {filling : Filling} (taken : jobs.fill manager types filling = some next) :
    filling ∈ jobs.filling ∧ ∃ memory, jobs.copier.perform manager types jobs.memory filling = .ok memory ∧
      next = { jobs with memory, filling := jobs.filling.erase filling, filled := jobs.filled ++ [filling] } := by
  unfold Jobs.fill at taken
  split at taken
  · next member =>
      split at taken
      · cases taken
      · next memory performed =>
          cases taken
          exact ⟨member, memory, performed, rfl⟩
  · cases taken

theorem Invariant.step (invariant : Invariant heap table jobs) (tiles : Tiles table)
    (base : table.baseAddr = heap.toSpace) {action : Action} (taken : jobs.step manager types action = some next) :
    Invariant heap table next := by
  cases action with
  | spawn => exact invariant.spawn tiles base taken
  | resolve addr => exact invariant.resolve tiles base taken
  | fault addr =>
      simp only [Jobs.step] at taken
      split at taken
      · next allowed =>
          cases taken
          refine { invariant with inSpace := ?_, eager := ?_ }
          · intro other member
            rcases List.mem_append.mp member with old | new
            · exact invariant.inSpace other old
            · exact List.mem_singleton.mp new ▸ allowed.2
          · intro idx page early found
            exact (invariant.eager idx page early found).imp_left (List.mem_append_left _)
      · cases taken
  | leave =>
      simp only [Jobs.step] at taken
      split at taken
      · cases taken
        exact { invariant with }
      · cases taken
  | fill filling =>
      obtain ⟨member, memory, _, rfl⟩ := fill_eq_some taken
      apply invariant.reorder
      have back := (List.perm_cons_erase member).symm.append_right jobs.filled
      refine List.Perm.trans ?_ back
      rw [← List.append_assoc]
      exact List.perm_append_singleton _ _

theorem Invariant.filledOnce (invariant : Invariant heap table jobs) (tiles : Tiles table)
    (returned : jobs.Returned) : FilledOnce table jobs.filled := by
  obtain ⟨spawned, _, faults, filling⟩ := returned
  have begun : jobs.begun = jobs.filled := by rw [Jobs.begun, filling, List.nil_append]
  have distinct := List.Nodup.of_map Filling.pageId invariant.distinct
  rw [begun] at distinct
  constructor
  case relocated =>
    intro idx page found
    have early : idx < jobs.spawned := by
      rw [spawned, invariant.sameTable]
      exact Nat.lt_of_lt_of_le (tiles.placed.indexed.below found) tiles.placed.bounded
    have done : jobs.copier.workDone.bit idx = true := by
      rcases invariant.eager idx page early found with waits | done
      · rw [faults] at waits
        cases waits
      · exact done
    obtain ⟨filling, member, same⟩ := List.mem_map.mp ((invariant.bits idx).mp done)
    have suits : Suits table (.relocate idx) := ⟨page, found⟩
    rw [(invariant.suits filling member).unique tiles.placed suits same, begun] at member
    exact List.count_eq_one_of_mem distinct member
  case zeroed => exact fun pageId => List.nodup_iff_count_le_one.mp distinct _
  case unzeroed =>
    intro pageId idx page found lower upper member
    have suits := invariant.suits (.zeropage pageId) (begun ▸ member)
    have within := tiles.placed.within found
    exact absurd suits.1 (by omega)
  case pages =>
    intro pageId member
    exact invariant.suits (.relocate pageId) (begun ▸ member)

/-- No job panics before it fills its page. -/
theorem Invariant.resolves (invariant : Invariant heap table jobs) (tiles : Tiles table)
    (base : table.baseAddr = heap.toSpace) (member : addr ∈ jobs.faults) :
    ∃ next, jobs.step manager types (.resolve addr) = some next := by
  obtain ⟨filling, chosen, suits, _⟩ := invariant.chooses tiles base (invariant.inSpace addr member)
  have inside : filling.pageId < jobs.copier.workDone.len := by
    rw [invariant.length]
    exact suits.pageId_lt tiles.placed
  obtain ⟨workDone, set, _⟩ := AtomicBitmap.set_true_eq_ok invariant.sized inside
  simp only [Jobs.step, Jobs.resolve, if_pos member, chosen, CopierActive.claim_eq_ok.mpr ⟨workDone, set, rfl⟩]
  exact ⟨_, rfl⟩

/-- The memory of the jobs is what the fillings so far have made of it, and of the copier only
the bits change. -/
structure Worked (manager : TypeManager Types) (types : Types) (copier : CopierActive) (memory : Memory) (jobs : Jobs) :
    Prop where
  same : ∃ workDone, jobs.copier = { copier with workDone }
  performed : Performs manager types copier memory jobs.filled jobs.memory

theorem Worked.step {copier : CopierActive} {memory : Memory} {action : Action}
    (worked : Worked manager types copier memory jobs) (taken : jobs.step manager types action = some next) :
    Worked manager types copier memory next := by
  obtain ⟨⟨old, same⟩, performed⟩ := worked
  cases action with
  | spawn =>
      simp only [Jobs.step, Jobs.spawn] at taken
      split at taken
      · split at taken <;> cases taken <;> exact ⟨⟨old, same⟩, performed⟩
      · cases taken
  | fault addr =>
      simp only [Jobs.step] at taken
      split at taken <;> cases taken
      exact ⟨⟨old, same⟩, performed⟩
  | leave =>
      simp only [Jobs.step] at taken
      split at taken <;> cases taken
      exact ⟨⟨old, same⟩, performed⟩
  | resolve addr =>
      simp only [Jobs.step, Jobs.resolve] at taken
      split at taken
      · split at taken
        · cases taken
        · split at taken
          · cases taken
          · next done claimed guarded =>
              obtain ⟨workDone, _, rfl⟩ := CopierActive.claim_eq_ok.mp guarded
              cases taken
              cases done <;> exact ⟨⟨workDone, by simp [same]⟩, performed⟩
      · cases taken
  | fill filling =>
      obtain ⟨_, after, filled, rfl⟩ := fill_eq_some taken
      refine ⟨⟨old, same⟩, ?_⟩
      rw [same, CopierActive.perform_claimed] at filled
      rw [Performs] at performed
      simp only [Performs, List.foldlM_append, performed, List.foldlM_cons, List.foldlM_nil, bind, Except.bind, filled,
        pure, Except.pure]

variable {relocRegistry : FrozenRegistry} {fromMm : PageTable} {memory : Memory} {actions : List Action} {final : Jobs}

theorem run_invariant (tiles : Tiles table) (base : table.baseAddr = heap.toSpace)
    (ran : Transition.run (step manager types) (start (.start heap relocRegistry fromMm table) memory) actions =
      some final) : Invariant heap table final := by
  apply Transition.run_invariant (Invariant heap table) ran invariant_start
  intro jobs action next invariant taken
  exact invariant.step tiles base taken

theorem run_worked {copier : CopierActive}
    (ran : Transition.run (step manager types) (start copier memory) actions = some final) :
    Worked manager types copier memory final :=
  Transition.run_invariant (Worked manager types copier memory) ran ⟨⟨copier.workDone, rfl⟩, rfl⟩
    fun _ _ _ worked taken => worked.step taken

/-- In every order of the jobs and the faults, when `finish` returns each page was relocated
once, and no base page was zeroed twice or in a page: the memory is what these fillings and
nothing else made of it. -/
theorem filled_once (tiles : Tiles table) (base : table.baseAddr = heap.toSpace)
    (ran : Transition.run (step manager types) (start (.start heap relocRegistry fromMm table) memory) actions =
      some final) (returned : final.Returned) :
    FilledOnce table final.filled ∧
      Performs manager types (.start heap relocRegistry fromMm table) memory final.filled final.memory :=
  ⟨(run_invariant tiles base ran).filledOnce tiles returned, (run_worked ran).performed⟩

instance (jobs : Jobs) : Decidable jobs.Returned := inferInstanceAs (Decidable (_ ∧ _ ∧ _ ∧ _))

/-- A small page, a page of two base pages behind it, and an unused base page. -/
def twoPages : PageTable :=
  ⟨4096, 3, 4, [some ⟨.small, 4096, 64⟩, some ⟨.huge 2, 2101248, 4194304⟩, none, none], none⟩

theorem twoPages_tiles : Tiles twoPages := by
  have goes : ((Mm.Allocator.new 4096 4).calls [.context 0 64, .direct 4194304]).map (fun served => served.2.table) =
      .ok twoPages := by
    decide +kernel
  obtain ⟨⟨grants, final⟩, built, same⟩ := map_eq_ok.mp goes
  obtain ⟨tiled, _⟩ := Mm.Allocator.calls_preserve (.new 4096 4) (by decide) ⟨by simp, by simp, .nil⟩ built
  rw [← same]
  exact ⟨tiled.placed, tiled.covered⟩

/-- Two objects of plain data move, one into each page. -/
def twoRecords : FrozenRegistry :=
  ((RegistryBuilder.new.insert ⟨4096, 0, 24⟩).insert ⟨64, 2097152, 24⟩).freeze

/-- The word of each of them in from-space, and words of an earlier cycle in to-space. -/
def staleMemory : Memory := fun address =>
  if address = 16781328 then 7 else if address = 16777296 then 8 else if address = 4112 ∨ address = 6295560 then 9 else 0

/-- Faults before and behind the eager jobs, in the second base page of a page and behind all pages. -/
def mixedFaults : List Action :=
  [.fault 4198408, .spawn, .resolve 4198408, .fault 6295560, .spawn, .resolve 4096, .resolve 2101248,
    .resolve 6295560, .fill (.zeropage 3), .spawn, .spawn, .fault 4100, .fill (.relocate 0), .leave, .resolve 4100,
    .fill (.relocate 1)]

theorem filled_once_twoPages :
    ∃ final, Transition.run (step TypeManager.pointerArrays ())
        (start (.start ⟨16777216, 4096⟩ twoRecords (.new 16777216 4) twoPages) staleMemory) mixedFaults = some final ∧
      final.filled = [.zeropage 3, .relocate 0, .relocate 1] ∧ FilledOnce twoPages final.filled ∧
      Performs TypeManager.pointerArrays () (.start ⟨16777216, 4096⟩ twoRecords (.new 16777216 4) twoPages) staleMemory
        final.filled final.memory ∧
      [final.memory 4112, final.memory 2101264, final.memory 6295560] = [7, 8, 0] := by
  have goes : (Transition.run (step TypeManager.pointerArrays ())
      (start (.start ⟨16777216, 4096⟩ twoRecords (.new 16777216 4) twoPages) staleMemory) mixedFaults).map (fun final =>
        (final.filled, decide final.Returned, [final.memory 4112, final.memory 2101264, final.memory 6295560])) =
      some ([.zeropage 3, .relocate 0, .relocate 1], true, [7, 8, 0]) := by
    decide +kernel
  obtain ⟨final, ran, same⟩ := Option.map_eq_some_iff.mp goes
  simp only [Prod.mk.injEq, decide_eq_true_eq] at same
  obtain ⟨filled, returned, words⟩ := same
  obtain ⟨once, performed⟩ := filled_once twoPages_tiles rfl ran returned
  exact ⟨final, ran, filled, once, performed, words⟩

end Jobs

end UwUGC.Gc
