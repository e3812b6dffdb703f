import Mathlib.Data.Set.Finite.Basic
import Mathlib.Logic.Function.Basic

/-! A store of objects as its threads see it: root slots, and objects with pointer fields. The
identity of an object is of no account, so two stores are the same to their threads when a
correspondence of their objects respects roots, fields and everything else. -/

set_option autoImplicit false

structure ObjectStore.Object (Kind Word Field Id : Type) where
  kind : Kind
  size : Nat
  /-- What is no pointer. -/
  word : Field → Option Word
  fields : List Field
  pointer : Field → Option Id

/-- A thread has roots while it is in the store. -/
structure ObjectStore (Thread Kind Word Field Id : Type) where
  roots : Thread → Option (List (Option Id))
  object : Id → Option (ObjectStore.Object Kind Word Field Id)

namespace ObjectStore

/-- What a thread makes a new object from: the root that each field is set from, or null, and the
words that are written beside the fields. -/
structure Draft (Kind Word Field : Type) where
  kind : Kind
  size : Nat
  fields : List (Field × Option Nat)
  words : List (Field × Word)
deriving DecidableEq, Repr

/-- What a thread does to the store. -/
inductive Op (Thread Kind Word Field : Type) where
  | enter (thread : Thread) (slots : Nat)
  | leave (thread : Thread)
  | alloc (thread : Thread) (draft : Draft Kind Word Field) (slot : Nat)
  /-- An allocation that finds no room. -/
  | full (thread : Thread)
  | load (thread : Thread) (slot : Nat) (field : Field) (into : Nat)
  | store (thread : Thread) (slot : Nat) (field : Field) (from? : Option Nat)
  | assign (thread : Thread) (into : Nat) (from? : Option Nat)
deriving DecidableEq, Repr

variable {Thread Kind Word Field Id Other Third : Type}

def empty : ObjectStore Thread Kind Word Field Id where
  roots := fun _ => none
  object := fun _ => none

def read (roots : List (Option Id)) : Option Nat → Option (Option Id)
  | none => some none
  | some slot => roots[slot]?

/-- The object starts as the draft says; a word that is not written may be anything. -/
structure Object.Drafted (roots : List (Option Id)) (draft : Draft Kind Word Field) (object : Object Kind Word Field Id) :
    Prop where
  kind : object.kind = draft.kind
  size : object.size = draft.size
  fields : object.fields = draft.fields.map Prod.fst
  pointer : ∀ field from?, (field, from?) ∈ draft.fields → read roots from? = some (object.pointer field)
  word : ∀ offset word, (offset, word) ∈ draft.words → object.word offset = some word

section Steps

variable [DecidableEq Thread] [DecidableEq Field] [DecidableEq Id]

def withRoots (store : ObjectStore Thread Kind Word Field Id) (thread : Thread) (roots : Option (List (Option Id))) :
    ObjectStore Thread Kind Word Field Id :=
  { store with roots := Function.update store.roots thread roots }

def withObject (store : ObjectStore Thread Kind Word Field Id) (id : Id) (object : Object Kind Word Field Id) :
    ObjectStore Thread Kind Word Field Id :=
  { store with object := Function.update store.object id (some object) }

def Object.withPointer (object : Object Kind Word Field Id) (field : Field) (pointer : Option Id) :
    Object Kind Word Field Id :=
  { object with pointer := Function.update object.pointer field pointer }

/-- Objects are never taken out of the store. -/
inductive Steps (store : ObjectStore Thread Kind Word Field Id) :
    Op Thread Kind Word Field → ObjectStore Thread Kind Word Field Id → Prop where
  | enter {thread : Thread} {slots : Nat} (free : store.roots thread = none) :
      Steps store (.enter thread slots) (store.withRoots thread (some (List.replicate slots none)))
  | leave {thread : Thread} {roots : List (Option Id)} (own : store.roots thread = some roots) :
      Steps store (.leave thread) (store.withRoots thread none)
  | full {thread : Thread} {roots : List (Option Id)} (own : store.roots thread = some roots) :
      Steps store (.full thread) store
  | alloc {thread : Thread} {roots : List (Option Id)} {draft : Draft Kind Word Field} {slot : Nat} {id : Id}
      {object : Object Kind Word Field Id} (own : store.roots thread = some roots) (inside : slot < roots.length)
      (fresh : store.object id = none) (drafted : object.Drafted roots draft) :
      Steps store (.alloc thread draft slot)
        ((store.withObject id object).withRoots thread (some (roots.set slot (some id))))
  | load {thread : Thread} {roots : List (Option Id)} {slot into : Nat} {field : Field} {id : Id}
      {object : Object Kind Word Field Id} (own : store.roots thread = some roots)
      (held : roots[slot]? = some (some id)) (found : store.object id = some object) (member : field ∈ object.fields)
      (inside : into < roots.length) :
      Steps store (.load thread slot field into) (store.withRoots thread (some (roots.set into (object.pointer field))))
  | store {thread : Thread} {roots : List (Option Id)} {slot : Nat} {field : Field} {from? : Option Nat} {id : Id}
      {object : Object Kind Word Field Id} {pointer : Option Id} (own : store.roots thread = some roots)
      (held : roots[slot]? = some (some id)) (found : store.object id = some object) (member : field ∈ object.fields)
      (value : read roots from? = some pointer) :
      Steps store (.store thread slot field from?) (store.withObject id (object.withPointer field pointer))
  | assign {thread : Thread} {roots : List (Option Id)} {into : Nat} {from? : Option Nat} {pointer : Option Id}
      (own : store.roots thread = some roots) (value : read roots from? = some pointer) (inside : into < roots.length) :
      Steps store (.assign thread into from?) (store.withRoots thread (some (roots.set into pointer)))

inductive Runs (store : ObjectStore Thread Kind Word Field Id) :
    List (Op Thread Kind Word Field) → ObjectStore Thread Kind Word Field Id → Prop where
  | nil : Runs store [] store
  | concat {ops : List (Op Thread Kind Word Field)} {op : Op Thread Kind Word Field}
      {middle final : ObjectStore Thread Kind Word Field Id} (before : Runs store ops middle)
      (step : Steps middle op final) : Runs store (ops ++ [op]) final

/-- There is always room for one more object. -/
def Bounded (store : ObjectStore Thread Kind Word Field Id) : Prop :=
  {id | store.object id ≠ none}.Finite

omit [DecidableEq Thread] [DecidableEq Field] [DecidableEq Id] in
theorem Bounded.fresh [Infinite Id] {store : ObjectStore Thread Kind Word Field Id} (bounded : store.Bounded) :
    ∃ id, store.object id = none := by
  obtain ⟨id, outside⟩ := Set.Finite.exists_notMem bounded
  exact ⟨id, not_not.mp outside⟩

omit [DecidableEq Thread] [DecidableEq Field] in
theorem Bounded.withObject {store : ObjectStore Thread Kind Word Field Id} (bounded : store.Bounded) (id : Id)
    (object : Object Kind Word Field Id) : (store.withObject id object).Bounded := by
  refine (bounded.insert id).subset ?_
  intro other there
  by_cases same : other = id
  · exact .inl same
  · right
    simpa [ObjectStore.withObject, Function.update_of_ne same] using there

theorem Bounded.step {store next : ObjectStore Thread Kind Word Field Id} {op : Op Thread Kind Word Field}
    (bounded : store.Bounded) (step : Steps store op next) : next.Bounded := by
  cases step with
  | alloc => exact bounded.withObject _ _
  | store => exact bounded.withObject _ _
  | enter => exact bounded
  | leave => exact bounded
  | full => exact bounded
  | load => exact bounded
  | assign => exact bounded

end Steps

section Similar

/-- The same slots, with corresponding objects in them. -/
def SameRoots (names : Id → Other → Prop) (left : List (Option Id)) (right : List (Option Other)) : Prop :=
  ∀ slot : Nat, Option.Rel (Option.Rel names) left[slot]? right[slot]?

/-- The same object but for its identity and for that of what it points to. -/
structure Alike (names : Id → Other → Prop) (object : Object Kind Word Field Id)
    (image : Object Kind Word Field Other) : Prop where
  kind : object.kind = image.kind
  size : object.size = image.size
  word : object.word = image.word
  fields : object.fields = image.fields
  pointer : ∀ field ∈ object.fields, Option.Rel names (object.pointer field) (image.pointer field)

structure Similar (names : Id → Other → Prop) (store : ObjectStore Thread Kind Word Field Id)
    (other : ObjectStore Thread Kind Word Field Other) : Prop where
  roots : ∀ thread, Option.Rel (SameRoots names) (store.roots thread) (other.roots thread)
  object : ∀ {id twin}, names id twin →
    ∃ object image, store.object id = some object ∧ other.object twin = some image ∧ Alike names object image
  functional : ∀ {id left right}, names id left → names id right → left = right
  injective : ∀ {left right twin}, names left twin → names right twin → left = right

variable {names more : Id → Other → Prop}

section Rel

variable {Left Middle Right : Type} {related wider : Left → Right → Prop}

theorem rel_imp {left : Option Left} {right : Option Right} (wide : ∀ one its, related one its → wider one its)
    (same : Option.Rel related left right) : Option.Rel wider left right := by
  cases same with
  | some same => exact .some (wide _ _ same)
  | none => exact .none

theorem rel_symm {left : Option Left} {right : Option Right} (same : Option.Rel related left right) :
    Option.Rel (flip related) right left := by
  cases same with
  | some same => exact .some same
  | none => exact .none

theorem rel_comp {first : Left → Middle → Prop} {second : Middle → Right → Prop} {left : Option Left}
    {middle : Option Middle} {right : Option Right} (before : Option.Rel first left middle)
    (behind : Option.Rel second middle right) : Option.Rel (Relation.Comp first second) left right := by
  cases before with
  | some same =>
      cases behind with
      | some further => exact .some ⟨_, same, further⟩
  | none =>
      cases behind
      exact .none

theorem rel_functional {left : Option Left} {one other : Option Right}
    (functional : ∀ left one other, related left one → related left other → one = other)
    (first : Option.Rel related left one) (second : Option.Rel related left other) : one = other := by
  cases first with
  | some here =>
      cases second with
      | some there => exact congrArg some (functional _ _ _ here there)
  | none =>
      cases second
      rfl

theorem rel_some {left : Left} {right : Option Right} (same : Option.Rel related (some left) right) :
    ∃ value, right = some value ∧ related left value := by
  cases same with
  | some same => exact ⟨_, rfl, same⟩

theorem rel_none {right : Option Right} (same : Option.Rel related none right) : right = none := by
  cases same
  rfl

end Rel

namespace SameRoots

variable {left : List (Option Id)} {right : List (Option Other)}

theorem imp (same : SameRoots names left right) (wider : ∀ id twin, names id twin → more id twin) :
    SameRoots more left right :=
  fun slot => rel_imp (fun _ _ => rel_imp wider) (same slot)

theorem symm (same : SameRoots names left right) : SameRoots (flip names) right left :=
  fun slot => rel_imp (fun _ _ => rel_symm) (rel_symm (same slot))

theorem comp {next : Other → Third → Prop} {last : List (Option Third)} (first : SameRoots names left right)
    (second : SameRoots next right last) : SameRoots (Relation.Comp names next) left last :=
  fun slot => rel_imp (fun _ _ ⟨_, before, behind⟩ => rel_comp before behind) (rel_comp (first slot) (second slot))

theorem length_le (same : SameRoots names left right) : right.length ≤ left.length := by
  have behind := same left.length
  rw [List.getElem?_eq_none (Nat.le_refl _)] at behind
  exact List.getElem?_eq_none_iff.mp (rel_none behind)

theorem length_eq (same : SameRoots names left right) : right.length = left.length :=
  Nat.le_antisymm same.length_le same.symm.length_le

theorem set (same : SameRoots names left right) {held : Option Id} {twin : Option Other}
    (related : Option.Rel names held twin) (slot : Nat) : SameRoots names (left.set slot held) (right.set slot twin) := by
  intro other
  rw [List.getElem?_set, List.getElem?_set, same.length_eq]
  split
  · split
    · exact .some related
    · exact .none
  · exact same other

theorem replicate (slots : Nat) : SameRoots names (List.replicate slots none) (List.replicate slots none) := by
  intro slot
  rw [List.getElem?_replicate, List.getElem?_replicate]
  split
  · exact .some .none
  · exact .none

/-- A thread that reads a slot, or the null pointer, reads the same in both. -/
theorem read (same : SameRoots names left right) {from? : Option Nat} {pointer : Option Id}
    (value : ObjectStore.read left from? = some pointer) :
    ∃ twin, ObjectStore.read right from? = some twin ∧ Option.Rel names pointer twin := by
  cases from? with
  | none =>
      cases value
      exact ⟨none, rfl, .none⟩
  | some slot =>
      have there := same slot
      change left[slot]? = some pointer at value
      rw [value] at there
      exact rel_some there

theorem held (same : SameRoots names left right) {slot : Nat} {id : Id} (found : left[slot]? = some (some id)) :
    ∃ twin, right[slot]? = some (some twin) ∧ names id twin := by
  have there := same slot
  rw [found] at there
  obtain ⟨entry, inSlot, related⟩ := rel_some there
  obtain ⟨twin, rfl, named⟩ := rel_some related
  exact ⟨twin, inSlot, named⟩

end SameRoots

namespace Alike

variable {object : Object Kind Word Field Id} {image : Object Kind Word Field Other}

theorem imp (alike : Alike names object image) (wider : ∀ id twin, names id twin → more id twin) :
    Alike more object image :=
  ⟨alike.kind, alike.size, alike.word, alike.fields, fun field member => rel_imp wider (alike.pointer field member)⟩

theorem symm (alike : Alike names object image) : Alike (flip names) image object where
  kind := alike.kind.symm
  size := alike.size.symm
  word := alike.word.symm
  fields := alike.fields.symm
  pointer := fun field member => rel_symm (alike.pointer field (alike.fields ▸ member))

theorem comp {next : Other → Third → Prop} {last : Object Kind Word Field Third} (first : Alike names object image)
    (second : Alike next image last) : Alike (Relation.Comp names next) object last where
  kind := first.kind.trans second.kind
  size := first.size.trans second.size
  word := first.word.trans second.word
  fields := first.fields.trans second.fields
  pointer := fun field member => rel_comp (first.pointer field member) (second.pointer field (first.fields ▸ member))

theorem withPointer [DecidableEq Field] (alike : Alike names object image) {pointer : Option Id} {twin : Option Other}
    (related : Option.Rel names pointer twin) (field : Field) :
    Alike names (object.withPointer field pointer) (image.withPointer field twin) where
  kind := alike.kind
  size := alike.size
  word := alike.word
  fields := alike.fields
  pointer := by
    intro other member
    simp only [Object.withPointer, Function.update_apply]
    split
    · exact related
    · exact alike.pointer other member

end Alike

/-- What two stores know by the same names, they make from one draft alike. -/
theorem SameRoots.image {left : List (Option Id)} {right : List (Option Other)} (same : SameRoots names left right)
    (functional : ∀ id one other, names id one → names id other → one = other) {draft : Draft Kind Word Field}
    {object : Object Kind Word Field Id} (drafted : object.Drafted left draft) :
    ∃ image : Object Kind Word Field Other, Alike names object image ∧ image.Drafted right draft := by
  have named (field : Field) : ∃ twin, field ∈ object.fields → Option.Rel names (object.pointer field) twin := by
    by_cases member : field ∈ object.fields
    · rw [drafted.fields] at member
      obtain ⟨⟨_, from?⟩, listed, rfl⟩ := List.mem_map.mp member
      obtain ⟨twin, _, related⟩ := same.read (drafted.pointer _ from? listed)
      exact ⟨twin, fun _ => related⟩
    · exact ⟨none, fun inside => absurd inside member⟩
  choose pointer related using named
  refine ⟨⟨object.kind, object.size, object.word, object.fields, pointer⟩, ⟨rfl, rfl, rfl, rfl, related⟩,
    drafted.kind, drafted.size, drafted.fields, ?_, drafted.word⟩
  intro field from? listed
  obtain ⟨twin, held, also⟩ := same.read (drafted.pointer field from? listed)
  have inside : field ∈ object.fields := by
    rw [drafted.fields]
    exact List.mem_map.mpr ⟨_, listed, rfl⟩
  have equal : twin = pointer field := rel_functional functional also (related field inside)
  rw [held, equal]

namespace Similar

variable {store : ObjectStore Thread Kind Word Field Id} {other : ObjectStore Thread Kind Word Field Other}

theorem empty : Similar (fun (_ : Id) (_ : Other) => False) (empty : ObjectStore Thread Kind Word Field Id)
    (ObjectStore.empty : ObjectStore Thread Kind Word Field Other) where
  roots := fun _ => .none
  object := nofun
  functional := nofun
  injective := nofun

theorem symm (similar : Similar names store other) : Similar (flip names) other store where
  roots := fun thread => rel_imp (fun _ _ => SameRoots.symm) (rel_symm (similar.roots thread))
  object := by
    intro twin id named
    obtain ⟨object, image, found, there, alike⟩ := similar.object named
    exact ⟨image, object, there, found, alike.symm⟩
  functional := fun left right => similar.injective left right
  injective := fun left right => similar.functional left right

theorem comp {next : Other → Third → Prop} {last : ObjectStore Thread Kind Word Field Third}
    (first : Similar names store other) (second : Similar next other last) :
    Similar (Relation.Comp names next) store last where
  roots := fun thread => rel_imp (fun _ _ ⟨_, before, behind⟩ => before.comp behind)
    (rel_comp (first.roots thread) (second.roots thread))
  object := by
    rintro id twin ⟨between, named, further⟩
    obtain ⟨object, image, found, there, alike⟩ := first.object named
    obtain ⟨again, final, same, behind, alikeThen⟩ := second.object further
    cases there.symm.trans same
    exact ⟨object, final, found, behind, alike.comp alikeThen⟩
  functional := by
    rintro id left right ⟨between, named, further⟩ ⟨again, namedAgain, furtherAgain⟩
    cases first.functional named namedAgain
    exact second.functional further furtherAgain
  injective := by
    rintro left right twin ⟨between, named, further⟩ ⟨again, namedAgain, furtherAgain⟩
    cases second.injective further furtherAgain
    exact first.injective named namedAgain

theorem own (similar : Similar names store other) {thread : Thread} {roots : List (Option Id)}
    (own : store.roots thread = some roots) :
    ∃ twins, other.roots thread = some twins ∧ SameRoots names roots twins := by
  have there := similar.roots thread
  rw [own] at there
  exact rel_some there

section Follows

variable [DecidableEq Thread] [DecidableEq Field] [DecidableEq Id] [DecidableEq Other]

omit [DecidableEq Field] [DecidableEq Id] [DecidableEq Other] in
theorem withRoots (similar : Similar names store other) (thread : Thread) {roots : Option (List (Option Id))}
    {twins : Option (List (Option Other))} (same : Option.Rel (SameRoots names) roots twins) :
    Similar names (store.withRoots thread roots) (other.withRoots thread twins) where
  roots := by
    intro one
    simp only [ObjectStore.withRoots, Function.update_apply]
    split
    · exact same
    · exact similar.roots one
  object := similar.object
  functional := similar.functional
  injective := similar.injective

omit [DecidableEq Thread] [DecidableEq Field] in
theorem withObject (similar : Similar names store other) {id : Id} {twin : Other} (named : names id twin)
    {object : Object Kind Word Field Id} {image : Object Kind Word Field Other} (alike : Alike names object image) :
    Similar names (store.withObject id object) (other.withObject twin image) where
  roots := similar.roots
  object := by
    intro one its itsNamed
    simp only [ObjectStore.withObject, Function.update_apply]
    by_cases same : one = id
    · subst same
      rw [similar.functional itsNamed named]
      exact ⟨object, image, by simp, by simp, alike⟩
    · have different : its ≠ twin := fun collides => same (similar.injective itsNamed (collides ▸ named))
      rw [if_neg same, if_neg different]
      exact similar.object itsNamed
  functional := similar.functional
  injective := similar.injective

omit [DecidableEq Thread] [DecidableEq Field] in
/-- A new object in each store, known to both by one more pair of names. -/
theorem born (similar : Similar names store other) {id : Id} {twin : Other} (fresh : store.object id = none)
    (twinFresh : other.object twin = none) {object : Object Kind Word Field Id} {image : Object Kind Word Field Other}
    (alike : Alike names object image) :
    Similar (fun one its => names one its ∨ one = id ∧ its = twin) (store.withObject id object)
      (other.withObject twin image) where
  roots := fun thread => rel_imp (fun _ _ same => same.imp fun _ _ => .inl) (similar.roots thread)
  object := by
    rintro one its (named | ⟨rfl, rfl⟩)
    · obtain ⟨old, oldImage, found, there, oldAlike⟩ := similar.object named
      have different : one ≠ id := by
        rintro rfl
        rw [fresh] at found
        cases found
      have differs : its ≠ twin := by
        rintro rfl
        rw [twinFresh] at there
        cases there
      simp only [ObjectStore.withObject, Function.update_of_ne different, Function.update_of_ne differs]
      exact ⟨old, oldImage, found, there, oldAlike.imp fun _ _ => .inl⟩
    · exact ⟨object, image, Function.update_self .., Function.update_self .., alike.imp fun _ _ => .inl⟩
  functional := by
    rintro one left right (named | ⟨rfl, rfl⟩) (also | ⟨same, rfl⟩)
    · exact similar.functional named also
    · obtain ⟨_, _, found, _⟩ := similar.object named
      rw [same, fresh] at found
      cases found
    · obtain ⟨_, _, found, _⟩ := similar.object also
      rw [fresh] at found
      cases found
    · rfl
  injective := by
    rintro left right its (named | ⟨rfl, rfl⟩) (also | ⟨rfl, same⟩)
    · exact similar.injective named also
    · obtain ⟨_, _, _, there, _⟩ := similar.object named
      rw [same, twinFresh] at there
      cases there
    · obtain ⟨_, _, _, there, _⟩ := similar.object also
      rw [twinFresh] at there
      cases there
    · rfl

/-- What a thread does to one store it can do to the other. -/
theorem follows (similar : Similar names store other) {op : Op Thread Kind Word Field}
    {next : ObjectStore Thread Kind Word Field Id} (step : Steps store op next) (room : ∃ twin, other.object twin = none) :
    ∃ names final, Steps other op final ∧ Similar names next final := by
  cases step with
  | @enter thread slots free =>
      have there := similar.roots thread
      rw [free] at there
      exact ⟨names, _, .enter (rel_none there), similar.withRoots thread (.some (.replicate slots))⟩
  | leave own =>
      obtain ⟨twins, there, _⟩ := similar.own own
      exact ⟨names, _, .leave there, similar.withRoots _ .none⟩
  | full own =>
      obtain ⟨twins, there, _⟩ := similar.own own
      exact ⟨names, other, .full there, similar⟩
  | @alloc thread roots draft slot id object own inside fresh drafted =>
      obtain ⟨twins, there, same⟩ := similar.own own
      obtain ⟨twin, twinFresh⟩ := room
      obtain ⟨image, alike, imageDrafted⟩ := same.image (fun _ _ _ => similar.functional) drafted
      refine ⟨fun one its => names one its ∨ one = id ∧ its = twin, _,
        .alloc there (same.length_eq ▸ inside) twinFresh imageDrafted, ?_⟩
      refine (similar.born fresh twinFresh alike).withRoots thread (.some ?_)
      exact (same.imp fun _ _ => .inl).set (.some (.inr ⟨rfl, rfl⟩)) slot
  | load own held found member inside =>
      obtain ⟨twins, there, same⟩ := similar.own own
      obtain ⟨twin, twinHeld, named⟩ := same.held held
      obtain ⟨_, image, again, twinFound, alike⟩ := similar.object named
      cases found.symm.trans again
      refine ⟨names, _, .load there twinHeld twinFound (alike.fields ▸ member) (same.length_eq ▸ inside), ?_⟩
      exact similar.withRoots _ (.some (same.set (alike.pointer _ member) _))
  | store own held found member value =>
      obtain ⟨twins, there, same⟩ := similar.own own
      obtain ⟨twin, twinHeld, named⟩ := same.held held
      obtain ⟨_, image, again, twinFound, alike⟩ := similar.object named
      cases found.symm.trans again
      obtain ⟨pointer, twinValue, related⟩ := same.read value
      refine ⟨names, _, .store there twinHeld twinFound (alike.fields ▸ member) twinValue, ?_⟩
      exact similar.withObject named (alike.withPointer related _)
  | assign own value inside =>
      obtain ⟨twins, there, same⟩ := similar.own own
      obtain ⟨pointer, twinValue, related⟩ := same.read value
      refine ⟨names, _, .assign there twinValue (same.length_eq ▸ inside), ?_⟩
      exact similar.withRoots _ (.some (same.set related _))

end Follows

end Similar

end Similar

end ObjectStore
