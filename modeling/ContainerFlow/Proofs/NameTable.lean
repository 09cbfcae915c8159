/-
ContainerFlow.Proofs.NameTable — what a table of names answers, whatever
was done with it before.

Names are fed to a table and looked up in it, in any order and as often
as one likes (`NameTable.Use`).  A table that was empty in the beginning
has the names that were fed to it, each where it came first
(`names_after`).  So the numbers are given in turn, and all else follows
from there:

* `dense_of_inTurn`, `eq_of_inTurn` — no number is left out, and none is
  given twice;
* `Numbers` — what the numbers are at a given time;
* `get?_after` — they stay what they are, because the list only ever
  grows behind what is there.

`numbers_in_turn` is both, for every history.
-/
import Mathlib.Data.Finset.Card
import ContainerFlow.NameTable
import ContainerFlow.Proofs.Bindings

namespace ContainerFlow.NameTable

variable {t : NameTable} {name : String} {id : Nat}

/-! ## One name -/

/-- A name has a number exactly when the table has the name at that place. -/
theorem get?_eq_some_iff (t : NameTable) :
    t.get? name = some id ↔ t.names[id]? = some name := by
  rw [get?, List.idxOf?, List.findIdx?_eq_some_iff_getElem, List.getElem?_eq_some_iff]
  refine exists_congr fun hid => ?_
  rw [beq_iff_eq, and_iff_left_of_imp]
  intro hname j hj heq
  have hij := (List.Nodup.getElem_inj_iff t.distinct).mp ((beq_iff_eq.mp heq).trans hname.symm)
  omega

theorem get?_eq_none_iff : t.get? name = none ↔ name ∉ t.names := by
  simp [get?]

theorem lt_size_of_get? (h : t.get? name = some id) : id < t.size :=
  (List.getElem?_eq_some_iff.mp (t.get?_eq_some_iff.mp h)).1

theorem mem_names_of_get? (h : t.get? name = some id) : name ∈ t.names :=
  List.mem_of_getElem? (t.get?_eq_some_iff.mp h)

theorem feed_of_get? (h : t.get? name = some id) : t.feed name = ⟨false, id, t⟩ := by
  unfold feed
  split <;> simp_all

theorem feed_of_notMem (h : name ∉ t.names) : t.feed name = ⟨true, t.size, t.push name h⟩ := by
  have hnone : t.get? name = none := get?_eq_none_iff.mpr h
  unfold feed
  split <;> simp_all

theorem names_feed (t : NameTable) (name : String) :
    (t.feed name).table.names = if name ∈ t.names then t.names else t.names ++ [name] := by
  cases h : t.get? name with
  | some id => rw [feed_of_get? h, if_pos (mem_names_of_get? h)]
  | none =>
    have hnew := get?_eq_none_iff.mp h
    rw [feed_of_notMem hnew, if_neg hnew]
    rfl

theorem inserted_feed_iff (t : NameTable) (name : String) :
    (t.feed name).inserted = true ↔ name ∉ t.names := by
  rw [← get?_eq_none_iff]
  cases h : t.get? name with
  | some id => simp [feed_of_get? h]
  | none => simp [feed_of_notMem (get?_eq_none_iff.mp h)]

/-- The number that is answered to a name is the number of the name from then on. -/
theorem get?_table_feed (t : NameTable) (name : String) :
    (t.feed name).table.get? name = some (t.feed name).id := by
  cases h : t.get? name with
  | some id => rw [feed_of_get? h, h]
  | none =>
    rw [feed_of_notMem (get?_eq_none_iff.mp h), get?_eq_some_iff]
    simp [push, size]

/-! ## Tables in use -/

/-- What is done with a table. -/
inductive Use where
  /-- A name is fed to it. -/
  | feed (name : String)
  /-- The number of a name is looked up. -/
  | get (name : String)
  deriving DecidableEq, Repr

/-- The name that is fed to a table. -/
def Use.fed? : Use → Option String
  | .feed name => some name
  | .get _ => none

/-- The names that are fed to a table, in order and as often as they are fed. -/
def fed (uses : List Use) : List String := uses.filterMap Use.fed?

/-- The table after one thing is done with it. -/
def use (t : NameTable) : Use → NameTable
  | .feed name => (t.feed name).table
  | .get _ => t

/-- The table after many things are done with it, one after the other. -/
def after (t : NameTable) (uses : List Use) : NameTable := uses.foldl use t

theorem fed_append (uses more : List Use) : fed (uses ++ more) = fed uses ++ fed more :=
  List.filterMap_append

theorem after_append (t : NameTable) (uses more : List Use) :
    t.after (uses ++ more) = (t.after uses).after more :=
  List.foldl_append

/-- A table in use only ever grows behind the names that it has. -/
theorem names_prefix_use (t : NameTable) (u : Use) : t.names <+: (t.use u).names := by
  cases u with
  | get name => exact List.prefix_rfl
  | feed name =>
    rw [use, names_feed]
    split
    · exact List.prefix_rfl
    · exact List.prefix_append _ _

/-- The number of a name stays what it is. -/
theorem get?_after (h : t.get? name = some id) (uses : List Use) :
    (t.after uses).get? name = some id := by
  induction uses generalizing t with
  | nil => exact h
  | cons u rest ih =>
    refine ih ?_
    rw [get?_eq_some_iff] at h ⊢
    obtain ⟨hid, rfl⟩ := List.getElem?_eq_some_iff.mp h
    exact List.prefix_iff_getElem?.mp (names_prefix_use t u) id hid

/-! ## All names -/

/-- The names of a table that was empty in the beginning are those that were fed to it, each at its
first place. -/
theorem names_after (uses : List Use) : (empty.after uses).names = (fed uses).eraseDups := by
  induction uses using List.reverseRecOn with
  | nil => rfl
  | append_singleton uses u ih =>
    rw [after_append, fed_append]
    cases u with
    | get name =>
      rw [show fed [.get name] = [] from rfl, List.append_nil, ← ih]
      rfl
    | feed name =>
      have hlast := names_feed (empty.after uses) name
      rw [ih] at hlast
      simp only [List.mem_eraseDups] at hlast
      rw [show fed [.feed name] = [name] from rfl, Bindings.eraseDups_concat, ← hlast]
      rfl

/-- The numbers of a table are those of the names that were fed to it, counted from zero in the
order in which they first came. -/
structure Numbers (t : NameTable) (names : List String) : Prop where
  size_eq : t.size = names.toFinset.card
  dense : ∀ id, id < t.size ↔ ∃ name, t.get? name = some id
  unshared : ∀ a b id, t.get? a = some id → t.get? b = some id → a = b
  inTurn : ∀ id name, names.eraseDups[id]? = some name ↔ t.get? name = some id
  unknown_iff : ∀ name, t.get? name = none ↔ name ∉ names
  inserted_iff : ∀ name, (t.feed name).inserted = true ↔ name ∉ names

section
variable {names : List String}
  (hturn : ∀ id name, names.eraseDups[id]? = some name ↔ t.get? name = some id)
include hturn

/-- Numbers that are given in turn, one for each name, leave none out. -/
theorem dense_of_inTurn (hsize : t.size = names.eraseDups.length) (id : Nat) :
    id < t.size ↔ ∃ name, t.get? name = some id := by
  simp only [← hturn, hsize]
  constructor
  · exact fun hid => ⟨_, List.getElem?_eq_getElem hid⟩
  · rintro ⟨name, hname⟩
    exact (List.getElem?_eq_some_iff.mp hname).1

/-- Numbers that are given in turn are given once. -/
theorem eq_of_inTurn {a b : String} (ha : t.get? a = some id) (hb : t.get? b = some id) : a = b :=
  Option.some.inj (((hturn id a).mpr ha).symm.trans ((hturn id b).mpr hb))

end

theorem numbers_of_names {names : List String} (h : t.names = names.eraseDups) :
    t.Numbers names := by
  have hturn : ∀ id name, names.eraseDups[id]? = some name ↔ t.get? name = some id := by
    intro id name
    rw [get?_eq_some_iff, h]
  constructor
  case size_eq =>
    have hdistinct := List.toFinset_card_of_nodup t.distinct
    rw [size, ← hdistinct, h]
    congr 1
    ext name
    simp
  case dense => exact dense_of_inTurn hturn (congrArg List.length h)
  case unshared => exact fun a b id ha hb => eq_of_inTurn hturn ha hb
  case inTurn => exact hturn
  case unknown_iff =>
    intro name
    rw [get?_eq_none_iff, h, List.mem_eraseDups]
  case inserted_iff =>
    intro name
    rw [inserted_feed_iff, h, List.mem_eraseDups]

/-! ## Main result -/

/-- **Names are numbered in turn and for ever**: whatever was done with a table, its numbers are
those of the names that were fed to it, in the order in which they first came; looking a name up
changes nothing; a name keeps its number whatever is done afterwards; and what feeding a name is
answered the first time or later is answered to it ever after, as the number of a known name. -/
theorem numbers_in_turn (uses : List Use) :
    (empty.after uses).Numbers (fed uses) ∧
    (∀ name, empty.after (uses ++ [.get name]) = empty.after uses) ∧
    (∀ id name, (fed uses).eraseDups[id]? = some name →
      ∀ more, (empty.after (uses ++ more)).get? name = some id) ∧
    ∀ name more,
      let first := (empty.after uses).feed name
      let later := empty.after (uses ++ .feed name :: more)
      later.get? name = some first.id ∧ later.feed name = ⟨false, first.id, later⟩ := by
  have hnumbers := numbers_of_names (names_after uses)
  refine ⟨hnumbers, fun name => ?_, fun id name hname more => ?_, fun name more => ?_⟩
  · rw [after_append]
    rfl
  · rw [after_append]
    exact get?_after ((hnumbers.inTurn id name).mp hname) more
  · have hfirst := get?_table_feed (empty.after uses) name
    have hlater : (empty.after (uses ++ .feed name :: more)).get? name
        = some ((empty.after uses).feed name).id := by
      rw [after_append]
      exact get?_after hfirst more
    exact ⟨hlater, feed_of_get? hlater⟩

end ContainerFlow.NameTable
