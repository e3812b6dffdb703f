import Mathlib.Algebra.Order.Ring.Nat
import Mathlib.Order.Monotone.Basic

/-! The profiler of a cycle. Time is charged to the section that is open: a cookie marks since
when that has been its own. Readings of the clock are numbered in the order they are taken. -/

set_option autoImplicit false

namespace UwUGC

/-- A section with its subsections in the order they were first entered, each under its name. -/
inductive Section where
  | mk (name : String) (this total : Nat) (subsections : List (String × Section))

namespace Section

def name : Section → String
  | mk name _ _ _ => name

def this : Section → Nat
  | mk _ this _ _ => this

def total : Section → Nat
  | mk _ _ total _ => total

def subsections : Section → List (String × Section)
  | mk _ _ _ subsections => subsections

def new (name : String) : Section := mk name 0 0 []

def addThis (sec : Section) (duration : Nat) : Section :=
  mk sec.name (sec.this + duration) sec.total sec.subsections

def addTotal (sec : Section) (duration : Nat) : Section :=
  mk sec.name sec.this (sec.total + duration) sec.subsections

def setTotal (sec : Section) (duration : Nat) : Section := mk sec.name sec.this duration sec.subsections

/-- What `or_insert_with` lends. -/
def entry (name : String) : List (String × Section) → Section
  | [] => new name
  | (key, sec) :: rest => if key = name then sec else entry name rest

/-- The map when the loan has ended. -/
def putEntry (name : String) (later : Section) : List (String × Section) → List (String × Section)
  | [] => [(name, later)]
  | (key, sec) :: rest => if key = name then (key, later) :: rest else (key, sec) :: putEntry name later rest

def setSubsections (sec : Section) (subsections : List (String × Section)) : Section :=
  mk sec.name sec.this sec.total subsections

/-- The totals of the subsections. -/
def subtotal (subsections : List (String × Section)) : Nat := (subsections.map (·.2.total)).sum

/-- The total of the section is its own time and the totals of its subsections, each of them under
a name of its own, and so for each section below it. -/
inductive Conserved : Section → Prop where
  | mk {sec : Section} (whole : sec.total = sec.this + subtotal sec.subsections)
      (distinct : (sec.subsections.map (·.1)).Nodup)
      (parts : ∀ sub ∈ sec.subsections, Conserved sub.2) : Conserved sec

def find? (name : String) : List (String × Section) → Option Section
  | [] => none
  | (key, sec) :: rest => if key = name then some sec else find? name rest

/-- The section that the names lead to, from the section on. -/
def at? : List String → Section → Option Section
  | [], sec => some sec
  | name :: names, sec => (find? name sec.subsections).bind (at? names)

/-- What is charged to the section that the names lead to. -/
def totalAt (path : List String) (sec : Section) : Option Nat := (at? path sec).map total

end Section

structure SectionCookie where
  owner : Section
  startOfSelf : Nat

/-- What a closure does to the cookie that it borrows and to the number of the next reading. -/
abbrev ProfiledCall := SectionCookie → Nat → SectionCookie × Nat

/-- `section`, whose name is taken here. -/
def SectionCookie.enter (clock : Nat → Nat) (name : String) (func : ProfiledCall) : ProfiledCall := fun cookie tick =>
  let start := clock tick
  let owner := cookie.owner.addThis (start - cookie.startOfSelf)
  let (inner, tick) := func ⟨Section.entry name owner.subsections, start⟩ (tick + 1)
  let finish := clock tick
  let entered := (inner.owner.addThis (finish - inner.startOfSelf)).addTotal (finish - start)
  (⟨owner.setSubsections (Section.putEntry name entered owner.subsections), finish⟩, tick + 1)

structure Profiler where
  rootSection : Section

namespace Profiler

def new : Profiler := ⟨.new "root"⟩

def start (clock : Nat → Nat) (func : ProfiledCall) (profiler : Profiler) (tick : Nat) : Profiler × Nat :=
  let start := clock tick
  let (cookie, tick) := func ⟨profiler.rootSection, start⟩ (tick + 1)
  let finish := clock tick
  (⟨(cookie.owner.addThis (finish - cookie.startOfSelf)).setTotal (finish - start)⟩, tick + 1)

end Profiler

/-- The section calls of a closure, each with those of its own closure. -/
inductive SectionCalls where
  | done
  | nested (name : String) (inside rest : SectionCalls)

def SectionCalls.run (clock : Nat → Nat) : SectionCalls → ProfiledCall
  | done => fun cookie tick => (cookie, tick)
  | nested name inside rest => fun cookie tick =>
      let (cookie, tick) := SectionCookie.enter clock name (inside.run clock) cookie tick
      rest.run clock cookie tick

namespace SectionCalls

/-- The clock is read twice for a call, when it is entered and when it is left. -/
def readings : SectionCalls → Nat
  | done => 0
  | nested _ inside rest => 2 + inside.readings + rest.readings

/-- The time between the two readings of a call, over all the calls that the names lead to. -/
def recorded (clock : Nat → Nat) : SectionCalls → Nat → List String → Option Nat
  | done, _, _ => none
  | nested _ _ _, _, [] => none
  | nested name inside rest, tick, first :: names =>
      let finish := tick + 1 + inside.readings
      let here :=
        if first ≠ name then none
        else if names = [] then some (clock finish - clock tick)
        else inside.recorded clock (tick + 1) names
      here.merge (· + ·) (rest.recorded clock (finish + 1) (first :: names))

end SectionCalls

namespace Section

variable {sec later : Section} {name : String} {subsections : List (String × Section)}

@[simp] theorem subsections_addThis (duration : Nat) : (sec.addThis duration).subsections = sec.subsections := rfl

@[simp] theorem subsections_addTotal (duration : Nat) : (sec.addTotal duration).subsections = sec.subsections := rfl

@[simp] theorem this_addThis (duration : Nat) : (sec.addThis duration).this = sec.this + duration := rfl

@[simp] theorem this_addTotal (duration : Nat) : (sec.addTotal duration).this = sec.this := rfl

@[simp] theorem total_addThis (duration : Nat) : (sec.addThis duration).total = sec.total := rfl

@[simp] theorem total_addTotal (duration : Nat) : (sec.addTotal duration).total = sec.total + duration := rfl

@[simp] theorem this_setSubsections : (sec.setSubsections subsections).this = sec.this := rfl

@[simp] theorem subsections_setSubsections : (sec.setSubsections subsections).subsections = subsections := rfl

theorem Conserved.new (name : String) : (Section.new name).Conserved := .mk rfl .nil nofun

theorem Conserved.entry (parts : ∀ sub ∈ subsections, Conserved sub.2) : (entry name subsections).Conserved := by
  induction subsections with
  | nil => exact .new name
  | cons sub rest ih =>
      rw [List.forall_mem_cons] at parts
      rw [Section.entry]
      split
      · exact parts.1
      · exact ih parts.2

theorem Conserved.putEntry (parts : ∀ sub ∈ subsections, Conserved sub.2) (conserved : later.Conserved) :
    ∀ sub ∈ putEntry name later subsections, Conserved sub.2 := by
  induction subsections with
  | nil => simpa [Section.putEntry] using conserved
  | cons sub rest ih =>
      rw [List.forall_mem_cons] at parts
      rw [Section.putEntry]
      split
      · exact List.forall_mem_cons.mpr ⟨conserved, parts.2⟩
      · exact List.forall_mem_cons.mpr ⟨parts.1, ih parts.2⟩

theorem mem_map_putEntry {key : String} :
    key ∈ (putEntry name later subsections).map (·.1) ↔ key = name ∨ key ∈ subsections.map (·.1) := by
  induction subsections with
  | nil => simp [Section.putEntry]
  | cons sub rest ih =>
      rw [Section.putEntry]
      split
      · next same => simp [same]
      · simp only [List.map_cons, List.mem_cons, ih]
        exact or_left_comm

theorem nodup_putEntry (distinct : (subsections.map (·.1)).Nodup) :
    ((putEntry name later subsections).map (·.1)).Nodup := by
  induction subsections with
  | nil => exact List.nodup_cons.mpr ⟨List.not_mem_nil, .nil⟩
  | cons sub rest ih =>
      rw [List.map_cons, List.nodup_cons] at distinct
      rw [Section.putEntry]
      split
      · exact List.nodup_cons.mpr distinct
      · next other =>
          refine List.nodup_cons.mpr ⟨?_, ih distinct.2⟩
          rw [mem_map_putEntry]
          exact not_or.mpr ⟨other, distinct.1⟩

theorem find?_putEntry (key : String) : find? key (putEntry name later subsections) =
    if key = name then some later else find? key subsections := by
  induction subsections with
  | nil => simp [Section.putEntry, find?, eq_comm]
  | cons sub rest ih =>
      rw [Section.putEntry]
      split
      · next same =>
          simp only [find?, same]
          by_cases wanted : name = key
          · rw [if_pos wanted, if_pos wanted.symm]
          · rw [if_neg wanted, if_neg (Ne.symm wanted), if_neg wanted]
      · next other =>
          simp only [find?, ih]
          by_cases wanted : sub.1 = key
          · rw [if_pos wanted, if_pos wanted, if_neg (wanted ▸ other)]
          · rw [if_neg wanted, if_neg wanted]

theorem entry_eq (name : String) (subsections : List (String × Section)) :
    entry name subsections = (find? name subsections).getD (new name) := by
  induction subsections with
  | nil => rfl
  | cons sub rest ih =>
      rw [entry, find?]
      split
      · rfl
      · exact ih

@[simp] theorem totalAt_nil : totalAt [] sec = some sec.total := rfl

/-- Only what stands below the section decides what the names lead to. -/
theorem totalAt_congr {other : Section} {path : List String} (some_name : path ≠ [])
    (same : sec.subsections = other.subsections) : totalAt path sec = totalAt path other := by
  cases path with
  | nil => exact absurd rfl some_name
  | cons first names => rw [totalAt, totalAt, at?, at?, same]

theorem totalAt_cons (names : List String) :
    totalAt (name :: names) sec = (find? name sec.subsections).bind (totalAt names) := by
  rw [totalAt, at?, Option.map_bind]
  rfl

/-- A section that is not there yet is charged nothing, and has nothing below it. -/
theorem totalAt_entry {names : List String} (below : names ≠ []) :
    totalAt names (entry name sec.subsections) = totalAt (name :: names) sec := by
  rw [totalAt_cons, entry_eq]
  cases find? name sec.subsections with
  | some found => rfl
  | none =>
      cases names with
      | nil => exact absurd rfl below
      | cons first rest => rfl

/-- A name that is entered again goes on from what its section had. -/
theorem subtotal_putEntry : subtotal (putEntry name later subsections) + (entry name subsections).total =
    subtotal subsections + later.total := by
  induction subsections with
  | nil => simp [subtotal, Section.putEntry, Section.entry, Section.new, total]
  | cons sub rest ih =>
      simp only [Section.putEntry, Section.entry]
      split
      · simp only [subtotal, List.map_cons, List.sum_cons]
        omega
      · simp only [subtotal, List.map_cons, List.sum_cons] at ih ⊢
        omega

/-- The time that a section has so far, its own and that of its subsections. -/
def spent (sec : Section) : Nat := sec.this + subtotal sec.subsections

end Section

/-- What a closure with these calls leaves: the time since the mark of the cookie went to the
section or below it, up to the mark that the cookie has now, and each name got what was recorded. -/
structure SectionCookie.Charged (clock : Nat → Nat) (calls : SectionCalls) (before after : SectionCookie)
    (tick last : Nat) : Prop where
  readings : last = tick + calls.readings
  mark : after.startOfSelf ≤ clock last
  total : after.owner.total = before.owner.total
  spent : after.owner.spent + before.startOfSelf = before.owner.spent + after.startOfSelf
  distinct : (after.owner.subsections.map (·.1)).Nodup
  parts : ∀ sub ∈ after.owner.subsections, sub.2.Conserved
  recorded (path : List String) (below : path ≠ []) : after.owner.totalAt path =
    (before.owner.totalAt path).merge (· + ·) (calls.recorded clock tick path)

variable {clock : Nat → Nat} {cookie : SectionCookie} {tick : Nat}

/-- A closure that charges the time of its section as the calls say, for any cookie. -/
def Charges (clock : Nat → Nat) (calls : SectionCalls) (func : ProfiledCall) : Prop :=
  ∀ (cookie : SectionCookie) (tick : Nat), cookie.startOfSelf ≤ clock tick →
    (cookie.owner.subsections.map (·.1)).Nodup → (∀ sub ∈ cookie.owner.subsections, sub.2.Conserved) →
    cookie.Charged clock calls (func cookie tick).1 tick (func cookie tick).2

variable {func : ProfiledCall} {inside : SectionCalls}

/-- What the names lead to once the entered section is back in the map. -/
theorem Section.totalAt_entered {owner entered : Section} {name : String} {duration : Nat} {path : List String}
    {below : List String → Option Nat} (total : entered.total = (entry name owner.subsections).total + duration)
    (inner : ∀ names ≠ [], entered.totalAt names =
      ((entry name owner.subsections).totalAt names).merge (· + ·) (below names))
    (some_name : path ≠ []) :
    totalAt path (owner.setSubsections (putEntry name entered owner.subsections)) =
      (owner.totalAt path).merge (· + ·) (match path with
        | [] => none
        | first :: names => if first ≠ name then none else if names = [] then some duration else below names) := by
  cases path with
  | nil => exact absurd rfl some_name
  | cons first names =>
      simp only [totalAt_cons, subsections_setSubsections, find?_putEntry, ne_eq, ite_not]
      by_cases wanted : first = name
      case neg => rw [if_neg wanted, if_neg wanted, Option.merge_none_right]
      case pos =>
        rw [if_pos wanted, if_pos wanted, Option.bind_some, wanted]
        by_cases last : names = []
        case neg => rw [if_neg last, inner names last, totalAt_entry last, totalAt_cons]
        case pos =>
          rw [if_pos last, last, totalAt_nil, total, entry_eq]
          cases find? name owner.subsections with
          | none => exact congrArg some (Nat.zero_add duration)
          | some found => rfl

/-- The entered section takes all of its call, and the one around it the time before the call. -/
theorem Charges.enter (charges : Charges clock inside func) (monotone : Monotone clock) (name : String) :
    Charges clock (.nested name inside .done) (SectionCookie.enter clock name func) := by
  intro cookie tick mark distinct parts
  have entry : (Section.entry name cookie.owner.subsections).Conserved := .entry parts
  obtain ⟨whole, entryDistinct, entryParts⟩ := entry
  have inner := charges ⟨Section.entry name cookie.owner.subsections, clock tick⟩ (tick + 1)
    (monotone (Nat.le_succ tick)) entryDistinct entryParts
  simp only [SectionCookie.enter, Section.subsections_addThis]
  generalize func ⟨Section.entry name cookie.owner.subsections, clock tick⟩ (tick + 1) = outcome at inner
  obtain ⟨after, last⟩ := outcome
  obtain ⟨readings, innerMark, total, spent, innerDistinct, innerParts, recorded⟩ := inner
  simp only at readings innerMark total spent innerDistinct innerParts recorded ⊢
  have started : clock tick ≤ clock last := monotone (by omega)
  have entered : ((after.owner.addThis (clock last - after.startOfSelf)).addTotal (clock last - clock tick)).Conserved := by
    refine .mk ?_ innerDistinct innerParts
    simp only [Section.total_addTotal, Section.total_addThis, Section.this_addTotal, Section.this_addThis,
      Section.subsections_addTotal, Section.subsections_addThis]
    simp only [Section.spent] at spent
    omega
  constructor
  case readings =>
    simp only [SectionCalls.readings]
    omega
  case mark => exact monotone (Nat.le_succ last)
  case total => rfl
  case spent =>
    have moved := @Section.subtotal_putEntry
      ((after.owner.addThis (clock last - after.startOfSelf)).addTotal (clock last - clock tick)) name
      cookie.owner.subsections
    simp only [Section.total_addTotal, Section.total_addThis] at moved
    simp only [Section.spent, Section.this_setSubsections, Section.this_addThis, Section.subsections_setSubsections]
    omega
  case distinct => exact Section.nodup_putEntry distinct
  case parts => exact .putEntry parts entered
  case recorded =>
    intro path below
    have inner (names : List String) (some_name : names ≠ []) : ((after.owner.addThis
        (clock last - after.startOfSelf)).addTotal (clock last - clock tick)).totalAt names =
        ((Section.entry name cookie.owner.subsections).totalAt names).merge (· + ·)
          (inside.recorded clock (tick + 1) names) := by
      rw [← recorded names some_name]
      exact Section.totalAt_congr some_name rfl
    have grown : ((after.owner.addThis (clock last - after.startOfSelf)).addTotal (clock last - clock tick)).total =
        (Section.entry name cookie.owner.subsections).total + (clock last - clock tick) := by
      rw [Section.total_addTotal, Section.total_addThis, total]
    have all := Section.totalAt_entered grown inner below
    cases path with
    | nil => exact absurd rfl below
    | cons first names =>
        simp only [SectionCalls.recorded, Option.merge_none_right, ← readings]
        exact all

theorem charges_done : Charges clock .done (SectionCalls.done.run clock) := by
  intro cookie tick mark distinct parts
  refine ⟨rfl, mark, rfl, rfl, distinct, parts, fun path below => ?_⟩
  rw [SectionCalls.recorded, Option.merge_none_right]
  rfl

theorem merge_add_assoc (a b c : Option Nat) : (a.merge (· + ·) b).merge (· + ·) c =
    a.merge (· + ·) (b.merge (· + ·) c) :=
  have : Std.Associative fun a b : Nat => a + b := ⟨Nat.add_assoc⟩
  (Option.associative_merge fun a b : Nat => a + b).assoc a b c

/-- A call and the calls behind it. -/
theorem Charges.trans {next : ProfiledCall} {name : String} {rest : SectionCalls}
    (first : Charges clock (.nested name inside .done) func) (second : Charges clock rest next) :
    Charges clock (.nested name inside rest) fun cookie tick => next (func cookie tick).1 (func cookie tick).2 := by
  intro cookie tick mark distinct parts
  change cookie.Charged clock _ (next (func cookie tick).1 (func cookie tick).2).1 tick
    (next (func cookie tick).1 (func cookie tick).2).2
  have before := first cookie tick mark distinct parts
  have behind := second (func cookie tick).1 (func cookie tick).2 before.mark before.distinct before.parts
  have middle : (func cookie tick).2 = tick + 1 + inside.readings + 1 := by
    rw [before.readings, SectionCalls.readings, SectionCalls.readings]
    omega
  constructor
  case readings =>
    rw [behind.readings, middle, SectionCalls.readings]
    omega
  case mark => exact behind.mark
  case total => exact behind.total.trans before.total
  case spent =>
    have earlier := before.spent
    have later := behind.spent
    omega
  case distinct => exact behind.distinct
  case parts => exact behind.parts
  case recorded =>
    intro path below
    rw [behind.recorded path below, before.recorded path below, merge_add_assoc, middle]
    cases path with
    | nil => exact absurd rfl below
    | cons head names => simp only [SectionCalls.recorded, Option.merge_none_right]

theorem charges_run (monotone : Monotone clock) (calls : SectionCalls) : Charges clock calls (calls.run clock) := by
  induction calls with
  | done => exact charges_done
  | nested name inside rest insideIH restIH => exact (insideIH.enter monotone name).trans restIH

/-- The time between the first and the last reading is charged in full, whatever sections it is
spent in: each of the calls is recorded under its names, and there are no other sections. -/
theorem Profiler.time_conserved (clock : Nat → Nat) (monotone : Monotone clock) (calls : SectionCalls) (tick : Nat) :
    (Profiler.new.start clock (calls.run clock) tick).2 = tick + 1 + calls.readings + 1 ∧
      (Profiler.new.start clock (calls.run clock) tick).1.rootSection.Conserved ∧
      (Profiler.new.start clock (calls.run clock) tick).1.rootSection.total =
        clock (tick + 1 + calls.readings) - clock tick ∧
      ∀ path ≠ [], (Profiler.new.start clock (calls.run clock) tick).1.rootSection.totalAt path =
        calls.recorded clock (tick + 1) path := by
  have charged := charges_run monotone calls ⟨.new "root", clock tick⟩ (tick + 1) (monotone (Nat.le_succ tick))
    .nil nofun
  simp only [start, Profiler.new]
  generalize calls.run clock ⟨.new "root", clock tick⟩ (tick + 1) = outcome at charged
  obtain ⟨after, last⟩ := outcome
  obtain ⟨readings, mark, _, spent, distinct, parts, recorded⟩ := charged
  simp only at readings mark spent distinct parts recorded ⊢
  subst readings
  refine ⟨rfl, .mk ?_ distinct parts, rfl, fun path below => ?_⟩
  · have started : clock tick ≤ clock (tick + 1 + calls.readings) := monotone (by omega)
    have fresh : (Section.new "root").spent = 0 := rfl
    rw [fresh] at spent
    simp only [Section.spent] at spent
    change clock _ - clock tick = after.owner.this + (clock _ - after.startOfSelf) +
      Section.subtotal after.owner.subsections
    omega
  · have fresh : (Section.new "root").totalAt path = none := by
      cases path with
      | nil => exact absurd rfl below
      | cons first names => rfl
    have all := recorded path below
    rw [fresh, Option.merge_none_left] at all
    have same : ((after.owner.addThis (clock (tick + 1 + calls.readings) - after.startOfSelf)).setTotal
        (clock (tick + 1 + calls.readings) - clock tick)).totalAt path = after.owner.totalAt path :=
      Section.totalAt_congr below rfl
    exact same.trans all

/-- A clock that goes on by one more at each reading, and a name that is entered twice under the
root, with another section inside the first time. -/
theorem Profiler.time_conserved_twice : ∃ profiler,
    Profiler.new.start (fun n => n * (n + 1) / 2) ((SectionCalls.nested "a" (.nested "b" .done .done)
      (.nested "a" .done .done)).run fun n => n * (n + 1) / 2) 0 = (profiler, 8) ∧
      profiler.rootSection.total = 28 ∧ profiler.rootSection.totalAt ["a"] = some 15 ∧
      (profiler.rootSection.at? ["a"]).map Section.this = some 12 ∧
      profiler.rootSection.totalAt ["a", "b"] = some 3 ∧ profiler.rootSection.totalAt ["b"] = none ∧
      profiler.rootSection.Conserved := by
  have monotone : Monotone fun n : Nat => n * (n + 1) / 2 :=
    fun n m le => Nat.div_le_div_right (Nat.mul_le_mul le (Nat.succ_le_succ le))
  obtain ⟨last, conserved, total, recorded⟩ :=
    time_conserved _ monotone (.nested "a" (.nested "b" .done .done) (.nested "a" .done .done)) 0
  refine ⟨_, Prod.ext rfl last, total, ?_, by decide, ?_, ?_, conserved⟩
  · exact (recorded ["a"] (by decide)).trans (by decide)
  · exact (recorded ["a", "b"] (by decide)).trans (by decide)
  · exact (recorded ["b"] (by decide)).trans (by decide)

end UwUGC
