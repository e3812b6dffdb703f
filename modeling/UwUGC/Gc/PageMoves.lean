import UwUGC.Panic
import Mathlib.Tactic.Linarith

/-! The loop that moves a page to its place, and the correction of what the system reports
as moved. The reported count may be too small; residency tells what was really moved. -/

set_option autoImplicit false

namespace UwUGC.Gc

structure MoveRequest where
  src : Nat
  dest : Nat
  len : Nat
deriving DecidableEq, Repr

inductive MoveResult where
  | ok (moved : Nat)
  | partiallyCopied (moved : Nat)
  | error (text : String)
deriving DecidableEq, Repr

/-- The two system calls. The low bit of an entry of `mincore` tells whether its page is
present; `present` is the state of a page of the destination. -/
structure Kernel (World : Type) where
  moveMemory : World → MoveRequest → MoveResult × World
  mincore : World → Nat → Nat → Option (List UInt8)
  present : World → Nat → Bool

def nextMultipleOf (value multiple : Nat) : Nat :=
  if value % multiple = 0 then value else value + (multiple - value % multiple)

def isPresent (entry : UInt8) : Bool := entry &&& 1 != 0

variable {World : Type} (kernel : Kernel World) (pageSize : Nat)

/-- The loop over the entries; it ends at the first page that is not present. -/
def scanPresent : List UInt8 → Nat → Nat
  | [], moved => moved
  | entry :: rest, moved => if isPresent entry then scanPresent rest (moved + pageSize) else moved

/-- The buffer has a byte for each byte to check, and an entry for each page is written to it. -/
def uffdTryFixMoved (world : World) (dest movedReported movedIntended : Nat) : Except Panic Nat := do
  assert (movedIntended % pageSize = 0) "Moved intended must be multiple of page size"
  assert (dest % pageSize = 0) "Dest pointer must be multiple of page size"
  if movedIntended = movedReported then .ok movedReported
  else do
    let movedReported := nextMultipleOf movedReported pageSize
    let nrToCheck ← checkedSub movedIntended movedReported
    let vector := List.replicate nrToCheck (0 : UInt8)
    let entries ← unwrap (kernel.mincore world (dest + movedReported) nrToCheck)
    if entries.length ≤ vector.length then
      .ok (scanPresent pageSize (entries ++ vector.drop entries.length) movedReported)
    else
      -- A write behind the buffer.
      .error .indexOutOfBounds

/-- The loop of `do_relocate`, with the requests it made; `None` when the fuel is used up. -/
def moveLoop : Nat → World → MoveRequest → Except Panic (Option (List MoveRequest × World))
  | 0, _, _ => .ok none
  | fuel + 1, world, request =>
      match kernel.moveMemory world request with
      | (.ok moved, world) => do
          assert (request.len = moved) "short move is not returned as partially move?"
          .ok (some ([request], world))
      | (.partiallyCopied moved, world) => do
          let moved ← uffdTryFixMoved kernel pageSize world request.dest moved request.len
          if moved = request.len then .ok (some ([request], world))
          else do
            let len ← checkedSub request.len moved
            let rest ← moveLoop fuel world ⟨request.src + moved, request.dest + moved, len⟩
            .ok (rest.map fun (requests, world) => (request :: requests, world))
      | (.error text, _) => .error (.message ("Cannot move pages: " ++ text))

/-- The pages of a request, none of them present. -/
structure MoveRequest.Untouched (request : MoveRequest) (kernel : Kernel World) (pageSize : Nat) (world : World) :
    Prop where
  src : request.src % pageSize = 0
  dest : request.dest % pageSize = 0
  len : request.len % pageSize = 0
  nonempty : 0 < request.len
  absent : ∀ i, i * pageSize < request.len → kernel.present world (request.dest + i * pageSize) = false

/-- Each move takes a prefix of one page or more, and reports all of it only when it took all;
`mincore` has an entry for each page. -/
structure Kernel.Lawful (kernel : Kernel World) (pageSize : Nat) : Prop where
  moves : ∀ world request, request.Untouched kernel pageSize world → ∃ pages, 0 < pages ∧
    pages * pageSize ≤ request.len ∧
    (∀ address, kernel.present (kernel.moveMemory world request).2 address = true ↔
      kernel.present world address = true ∨ ∃ i < pages, address = request.dest + i * pageSize) ∧
    ((kernel.moveMemory world request).1 = .ok request.len ∧ pages * pageSize = request.len ∨
      ∃ reported ≤ pages * pageSize, (kernel.moveMemory world request).1 = .partiallyCopied reported)
  resident : ∀ world start length, start % pageSize = 0 → ∃ entries,
    kernel.mincore world start length = some entries ∧ entries.length = (length + pageSize - 1) / pageSize ∧
    ∀ i entry, entries[i]? = some entry → isPresent entry = kernel.present world (start + i * pageSize)

variable {kernel pageSize} {world final : World} {region : MoveRequest}

theorem scanPresent_eq {entries : List UInt8} {pages : Nat} (moved : Nat)
    (before : ∀ i < pages, ∃ entry, entries[i]? = some entry ∧ isPresent entry = true)
    (stops : ∀ entry, entries[pages]? = some entry → isPresent entry = false) :
    scanPresent pageSize entries moved = moved + pages * pageSize := by
  induction pages generalizing entries moved with
  | zero =>
      cases entries with
      | nil => simp [scanPresent]
      | cons entry rest => simp [scanPresent, stops entry rfl]
  | succ pages ih =>
      obtain ⟨entry, first, here⟩ := before 0 (Nat.succ_pos _)
      cases entries with
      | nil => cases first
      | cons entry rest =>
          cases first
          rw [scanPresent, if_pos here, ih]
          · rw [Nat.succ_mul]
            omega
          · intro i below
            simpa using before (i + 1) (Nat.succ_lt_succ below)
          · intro entry later
            exact stops entry (by simpa using later)

theorem nextMultipleOf_le {value pages : Nat} (positive : 0 < pageSize) (below : value ≤ pages * pageSize) :
    ∃ rounded ≤ pages, nextMultipleOf value pageSize = rounded * pageSize := by
  have split := Nat.div_add_mod value pageSize
  rw [Nat.mul_comm] at split
  have small := Nat.mod_lt value positive
  unfold nextMultipleOf
  split
  · next whole =>
      refine ⟨value / pageSize, ?_, by omega⟩
      exact Nat.le_of_mul_le_mul_right (by omega) positive
  · next excess =>
      refine ⟨value / pageSize + 1, ?_, by rw [Nat.add_mul]; omega⟩
      have less : value / pageSize * pageSize < pages * pageSize := by omega
      exact Nat.lt_of_mul_lt_mul_right less

/-- The buffer after `mincore`: the entries, and zeros behind them. -/
theorem scan_entries {entries : List UInt8} {padding rounded pages all : Nat} (moved : Nat) (length : entries.length = all - rounded)
    (between : rounded ≤ pages) (below : pages ≤ all)
    (present : ∀ i entry, entries[i]? = some entry → isPresent entry = decide (rounded + i < pages)) :
    scanPresent pageSize (entries ++ List.replicate padding 0) moved = moved + (pages - rounded) * pageSize := by
  apply scanPresent_eq
  · intro i early
    have inside : i < entries.length := by omega
    refine ⟨entries[i], ?_, ?_⟩
    · rw [List.getElem?_append_left inside, List.getElem?_eq_getElem inside]
    · rw [present i _ (List.getElem?_eq_getElem inside), decide_eq_true_eq]
      omega
  · intro entry found
    by_cases inside : pages - rounded < entries.length
    · rw [List.getElem?_append_left inside] at found
      rw [present _ entry found, decide_eq_false_iff_not]
      omega
    · rw [List.getElem?_append_right (Nat.le_of_not_lt inside), List.getElem?_replicate] at found
      split at found
      · cases found
        rfl
      · cases found

/-- The correction finds what was really moved, whatever was reported of it. -/
theorem uffdTryFixMoved_exact (lawful : kernel.Lawful pageSize) (positive : 0 < pageSize) {dest reported pages all : Nat}
    (aligned : dest % pageSize = 0) (moved : pages ≤ all) (below : reported ≤ pages * pageSize)
    (present : ∀ i < all, kernel.present world (dest + i * pageSize) = decide (i < pages)) :
    uffdTryFixMoved kernel pageSize world dest reported (all * pageSize) = .ok (pages * pageSize) := by
  have bound : pages * pageSize ≤ all * pageSize := Nat.mul_le_mul_right _ moved
  simp only [uffdTryFixMoved, bind_eq_ok, assert_eq_ok, Nat.mul_mod_left, aligned, decide_true, exists_const, true_and]
  by_cases whole : all * pageSize = reported
  · rw [if_pos whole, Except.ok.injEq]
    omega
  · obtain ⟨rounded, between, rounds⟩ := nextMultipleOf_le positive below
    have start : (dest + rounded * pageSize) % pageSize = 0 := by
      rw [Nat.add_mul_mod_self_right, aligned]
    have rest : all * pageSize - rounded * pageSize = (all - rounded) * pageSize := (Nat.sub_mul _ _ _).symm
    have fits : rounded * pageSize ≤ all * pageSize := Nat.mul_le_mul_right _ (Nat.le_trans between moved)
    obtain ⟨entries, read, length, resident⟩ := lawful.resident world _ ((all - rounded) * pageSize) start
    have count : entries.length = all - rounded := by
      rw [length, Nat.add_sub_assoc positive, Nat.add_comm, Nat.add_mul_div_right _ _ positive,
        Nat.div_eq_of_lt (Nat.sub_one_lt (Nat.ne_of_gt positive)), Nat.zero_add]
    have room : entries.length ≤ (all - rounded) * pageSize := by
      rw [count]
      exact Nat.le_mul_of_pos_right _ positive
    have scanned : scanPresent pageSize
        (entries ++ List.replicate ((all - rounded) * pageSize - entries.length) 0) (rounded * pageSize) =
        rounded * pageSize + (pages - rounded) * pageSize := by
      apply scan_entries _ count between moved
      intro i entry found
      have inside : i < entries.length := (List.getElem?_eq_some_iff.mp found).1
      rw [resident i entry found, Nat.add_assoc, ← Nat.add_mul, present _ (by omega)]
    rw [if_neg whole]
    simp only [bind_eq_ok]
    refine ⟨(all - rounded) * pageSize, ?_, entries, ?_, ?_⟩
    · rw [rounds, checkedSub, if_pos fits, rest]
    · rw [rounds, read, unwrap_some]
    · rw [rounds, List.length_replicate, if_pos room, List.drop_replicate, scanned, ← Nat.add_mul,
        Nat.add_sub_cancel' between]
/-- What is left of a region behind its first bytes. -/
def MoveRequest.suffix (region : MoveRequest) (done : Nat) : MoveRequest :=
  ⟨region.src + done, region.dest + done, region.len - done⟩

/-- The world behind a list of moves. -/
def Kernel.worldAfter (kernel : Kernel World) : World → List MoveRequest → World
  | world, [] => world
  | world, request :: rest => kernel.worldAfter (kernel.moveMemory world request).2 rest

/-- Each request is the part of the region that is not moved at that time, and all of it is in the end. -/
structure MovedOnce (kernel : Kernel World) (pageSize : Nat) (world : World) (region : MoveRequest)
    (requests : List MoveRequest) (final : World) : Prop where
  suffixes : ∀ past request rest, requests = past ++ request :: rest → ∃ pages, pages * pageSize < region.len ∧
    request = region.suffix (pages * pageSize) ∧
    ∀ i, i * pageSize < region.len →
      kernel.present (kernel.worldAfter world past) (region.dest + i * pageSize) = decide (i < pages)
  ends : final = kernel.worldAfter world requests
  moved : ∀ i, i * pageSize < region.len → kernel.present final (region.dest + i * pageSize) = true

/-- What one request of the loop does: a prefix is moved, and either it is everything or the loop goes on. -/
structure Advances (kernel : Kernel World) (pageSize : Nat) (world : World) (region : MoveRequest) (pages : Nat) :
    Prop where
  some_pages : 0 < pages
  within : pages * pageSize ≤ region.len
  present : ∀ i, i * pageSize < region.len →
    kernel.present (kernel.moveMemory world region).2 (region.dest + i * pageSize) = decide (i < pages)
  keeps : ∀ address, kernel.present world address = true →
    kernel.present (kernel.moveMemory world region).2 address = true
  ends : pages * pageSize = region.len → ∀ fuel, moveLoop kernel pageSize (fuel + 1) world region =
    .ok (some ([region], (kernel.moveMemory world region).2))
  goes_on : pages * pageSize ≠ region.len → ∀ fuel, moveLoop kernel pageSize (fuel + 1) world region =
    (moveLoop kernel pageSize fuel (kernel.moveMemory world region).2 (region.suffix (pages * pageSize))).map
      (Option.map fun rest => (region :: rest.1, rest.2))

theorem advances (lawful : kernel.Lawful pageSize) (positive : 0 < pageSize)
    (untouched : region.Untouched kernel pageSize world) : ∃ pages, Advances kernel pageSize world region pages := by
  obtain ⟨pages, some_pages, within, marks, reply⟩ := lawful.moves world region untouched
  cases called : kernel.moveMemory world region with | mk result after =>
  rw [called] at marks reply
  have present : ∀ i, i * pageSize < region.len → kernel.present after (region.dest + i * pageSize) = decide (i < pages) := by
    intro i inside
    rw [Bool.eq_iff_iff, marks, untouched.absent i inside, decide_eq_true_eq]
    constructor
    · rintro (absurd | ⟨j, below, same⟩)
      · cases absurd
      · rwa [Nat.eq_of_mul_eq_mul_right positive (Nat.add_left_cancel same)]
    · exact fun below => .inr ⟨i, below, rfl⟩
  have fixed (reported : Nat) (below : reported ≤ pages * pageSize) :
      uffdTryFixMoved kernel pageSize after region.dest reported region.len = .ok (pages * pageSize) := by
    obtain ⟨all, whole⟩ := Nat.dvd_of_mod_eq_zero untouched.len
    rw [Nat.mul_comm] at whole
    rw [whole] at within present ⊢
    refine uffdTryFixMoved_exact lawful positive untouched.dest (Nat.le_of_mul_le_mul_right within positive) below ?_
    intro i inside
    exact present i (Nat.mul_lt_mul_of_pos_right inside positive)
  refine ⟨pages, some_pages, within, by rw [called]; exact present, ?_, ?_, ?_⟩
  · intro address there
    rw [called]
    exact (marks address).mpr (.inl there)
  · intro whole fuel
    rcases reply with ⟨ok, _⟩ | ⟨reported, below, partly⟩
    · cases ok
      simp only [moveLoop, called, decide_true]
      rfl
    · cases partly
      simp only [moveLoop, called, fixed reported below, bind, Except.bind, if_pos whole]
  · intro part fuel
    rcases reply with ⟨_, whole⟩ | ⟨reported, below, partly⟩
    · exact absurd whole part
    · cases partly
      simp only [moveLoop, called, fixed reported below, bind, Except.bind, if_neg part, checkedSub, if_pos within]
      rw [MoveRequest.suffix]
      cases moveLoop kernel pageSize fuel after
          ⟨region.src + pages * pageSize, region.dest + pages * pageSize, region.len - pages * pageSize⟩ with
      | error panic => rfl
      | ok rest => cases rest <;> rfl

theorem Advances.untouched {pages : Nat} (advances : Advances kernel pageSize world region pages)
    (untouched : region.Untouched kernel pageSize world) (part : pages * pageSize ≠ region.len) :
    (region.suffix (pages * pageSize)).Untouched kernel pageSize (kernel.moveMemory world region).2 where
  src := by
    rw [MoveRequest.suffix, Nat.add_mul_mod_self_right]
    exact untouched.src
  dest := by
    rw [MoveRequest.suffix, Nat.add_mul_mod_self_right]
    exact untouched.dest
  len := by
    rw [MoveRequest.suffix]
    exact Nat.mod_eq_zero_of_dvd
      (Nat.dvd_sub (Nat.dvd_of_mod_eq_zero untouched.len) (Nat.dvd_mul_left pageSize pages))
  nonempty := Nat.sub_pos_of_lt (Nat.lt_of_le_of_ne advances.within part)
  absent := by
    intro i inside
    simp only [MoveRequest.suffix] at inside ⊢
    rw [Nat.add_assoc, ← Nat.add_mul, advances.present (pages + i) (by rw [Nat.add_mul]; omega)]
    simp

theorem MoveRequest.suffix_suffix (left right : Nat) : (region.suffix left).suffix right = region.suffix (left + right) := by
  simp only [MoveRequest.suffix, Nat.add_assoc, Nat.sub_sub]

theorem first_request (untouched : region.Untouched kernel pageSize world) :
    ∃ pages, pages * pageSize < region.len ∧ region = region.suffix (pages * pageSize) ∧
      ∀ i, i * pageSize < region.len → kernel.present world (region.dest + i * pageSize) = decide (i < pages) := by
  refine ⟨0, ?_, ?_, ?_⟩
  · rw [Nat.zero_mul]
    exact untouched.nonempty
  · simp [MoveRequest.suffix]
  · intro i inside
    rw [untouched.absent i inside]
    rfl

theorem MovedOnce.last {pages : Nat} (advances : Advances kernel pageSize world region pages)
    (untouched : region.Untouched kernel pageSize world) (whole : pages * pageSize = region.len) :
    MovedOnce kernel pageSize world region [region] (kernel.moveMemory world region).2 where
  suffixes := by
    intro past request rest split
    cases past with
    | nil =>
        cases split
        exact first_request untouched
    | cons head past =>
        cases past <;> cases split
  ends := rfl
  moved := by
    intro i inside
    rw [advances.present i inside, decide_eq_true_eq]
    rw [← whole] at inside
    exact Nat.lt_of_mul_lt_mul_right inside

/-- A page that was moved stays present. -/
def Kept (kernel : Kernel World) (world : World) (requests : List MoveRequest) : Prop :=
  ∀ past rest address, requests = past ++ rest → kernel.present world address = true →
    kernel.present (kernel.worldAfter world past) address = true

theorem Advances.kept {pages : Nat} (advances : Advances kernel pageSize world region pages)
    {requests : List MoveRequest} (kept : Kept kernel (kernel.moveMemory world region).2 requests) :
    Kept kernel world (region :: requests) := by
  intro past rest address split there
  cases past with
  | nil => exact there
  | cons head past =>
      cases split
      exact kept past rest address rfl (advances.keeps address there)

theorem MovedOnce.cons {pages : Nat} {requests : List MoveRequest} (advances : Advances kernel pageSize world region pages)
    (untouched : region.Untouched kernel pageSize world)
    (rest : MovedOnce kernel pageSize (kernel.moveMemory world region).2 (region.suffix (pages * pageSize)) requests final)
    (kept : Kept kernel (kernel.moveMemory world region).2 requests) :
    MovedOnce kernel pageSize world region (region :: requests) final := by
  -- The pages of the region before the suffix are moved, the others are those of the suffix.
  have within := advances.within
  have behind (i : Nat) (before : pages ≤ i) : region.dest + pages * pageSize + (i - pages) * pageSize = region.dest + i * pageSize := by
    rw [Nat.add_assoc, ← Nat.add_mul, Nat.add_sub_cancel' before]
  have inside_suffix {i : Nat} (before : pages ≤ i) (inside : i * pageSize < region.len) :
      (i - pages) * pageSize < region.len - pages * pageSize := by
    have split : i * pageSize = pages * pageSize + (i - pages) * pageSize := by
      rw [← Nat.add_mul, Nat.add_sub_cancel' before]
    omega
  have front {i : Nat} (inside : i * pageSize < region.len) (early : i < pages) :
      kernel.present (kernel.moveMemory world region).2 (region.dest + i * pageSize) = true := by
    rw [advances.present i inside, decide_eq_true_eq]
    exact early
  constructor
  case suffixes =>
    intro past request later split
    cases past with
    | nil =>
        cases split
        exact first_request untouched
    | cons head past =>
        cases split
        obtain ⟨more, below, same, present⟩ := rest.suffixes past request later rfl
        simp only [MoveRequest.suffix] at below present
        refine ⟨pages + more, ?_, ?_, ?_⟩
        · rw [Nat.add_mul]
          omega
        · rw [same, MoveRequest.suffix_suffix, Nat.add_mul]
        · intro i inside
          by_cases early : i < pages
          · rw [Kernel.worldAfter, kept past _ _ rfl (front inside early), eq_comm, decide_eq_true_eq]
            omega
          · have before := Nat.le_of_not_lt early
            have there := present (i - pages) (inside_suffix before inside)
            rw [behind i before] at there
            rw [Kernel.worldAfter, there, decide_eq_decide]
            omega
  case ends => exact rest.ends
  case moved =>
    intro i inside
    by_cases early : i < pages
    · rw [rest.ends]
      exact kept requests [] _ (List.append_nil _).symm (front inside early)
    · have before := Nat.le_of_not_lt early
      have there := rest.moved (i - pages) (inside_suffix before inside)
      simp only [MoveRequest.suffix] at there
      rwa [behind i before] at there

/-- The loop ends, and every page is moved by one of its requests. -/
theorem moveLoop_moves (lawful : kernel.Lawful pageSize) (positive : 0 < pageSize) {count : Nat}
    (enough : region.len ≤ count * pageSize) (untouched : region.Untouched kernel pageSize world) :
    ∃ requests final, (∀ fuel ≥ count, moveLoop kernel pageSize fuel world region = .ok (some (requests, final))) ∧
      MovedOnce kernel pageSize world region requests final ∧ Kept kernel world requests := by
  induction count generalizing world region with
  | zero =>
      have nonempty := untouched.nonempty
      omega
  | succ count ih =>
      obtain ⟨pages, advances⟩ := advances lawful positive untouched
      by_cases whole : pages * pageSize = region.len
      · refine ⟨[region], (kernel.moveMemory world region).2, ?_, .last advances untouched whole, advances.kept ?_⟩
        · intro fuel more
          obtain ⟨fuel, rfl⟩ := Nat.exists_eq_add_of_le' (Nat.le_trans (Nat.le_add_left 1 count) more)
          exact advances.ends whole fuel
        · intro past rest address split there
          cases past with
          | nil => exact there
          | cons head past => cases split
      · have less : (region.suffix (pages * pageSize)).len ≤ count * pageSize := by
          have one : pageSize ≤ pages * pageSize := Nat.le_mul_of_pos_left _ advances.some_pages
          rw [Nat.add_mul] at enough
          simp only [MoveRequest.suffix]
          omega
        obtain ⟨requests, final, ends, moved, kept⟩ := ih less (advances.untouched untouched whole)
        refine ⟨region :: requests, final, ?_, .cons advances untouched moved kept, advances.kept kept⟩
        intro fuel more
        obtain ⟨fuel, rfl⟩ := Nat.exists_eq_add_of_le' (Nat.le_trans (Nat.le_add_left 1 count) more)
        rw [advances.goes_on whole, ends fuel (Nat.le_of_succ_le_succ more)]
        rfl

/-- Whatever prefixes the system moves and however little it reports of them, the loop ends within a
request for each page, each request is what is left of the region, and all of it is moved. -/
theorem page_moved_once (lawful : kernel.Lawful pageSize) (positive : 0 < pageSize)
    (untouched : region.Untouched kernel pageSize world) :
    ∃ requests final, (∀ fuel ≥ region.len / pageSize,
        moveLoop kernel pageSize fuel world region = .ok (some (requests, final))) ∧
      MovedOnce kernel pageSize world region requests final := by
  have enough : region.len ≤ region.len / pageSize * pageSize :=
    Nat.le_of_eq (Nat.div_mul_cancel (Nat.dvd_of_mod_eq_zero untouched.len)).symm
  obtain ⟨requests, final, ends, moved, _⟩ := moveLoop_moves lawful positive enough untouched
  exact ⟨requests, final, ends, moved⟩

/-- A system that moves one page at a time and reports one byte of it, also of the last page. -/
def stingy : Kernel (Nat → Bool) where
  moveMemory world request := (.partiallyCopied 1, fun address => world address || address == request.dest)
  mincore world start length :=
    some ((List.range ((length + 4096 - 1) / 4096)).map fun i => if world (start + i * 4096) then 255 else 254)
  present world address := world address

theorem stingy_lawful : stingy.Lawful 4096 where
  moves := by
    intro world request untouched
    have page : 4096 ≤ request.len :=
      Nat.le_of_dvd untouched.nonempty (Nat.dvd_of_mod_eq_zero untouched.len)
    refine ⟨1, Nat.one_pos, by omega, ?_, .inr ⟨1, by decide, rfl⟩⟩
    intro address
    simp [stingy]
  resident := by
    intro world start length _
    refine ⟨_, rfl, by simp, ?_⟩
    intro i entry found
    obtain ⟨inside, same⟩ := List.getElem?_eq_some_iff.mp found
    rw [List.getElem_map, List.getElem_range] at same
    subst same
    simp only [stingy]
    cases world (start + i * 4096) <;> decide

theorem page_moved_once_stingy :
    ∃ requests final, (∀ fuel ≥ 12288 / 4096,
        moveLoop stingy 4096 fuel (fun _ => false) ⟨1048576, 2097152, 12288⟩ = .ok (some (requests, final))) ∧
      MovedOnce stingy 4096 (fun _ => false) ⟨1048576, 2097152, 12288⟩ requests final := by
  have untouched : MoveRequest.Untouched ⟨1048576, 2097152, 12288⟩ stingy 4096 (fun _ => false) :=
    ⟨rfl, rfl, rfl, by decide, fun _ _ => rfl⟩
  exact page_moved_once stingy_lawful (by decide) untouched

end UwUGC.Gc
