/-
ContainerFlow.Scratch — the directories that a run works in.

Actions never run in the repository itself.  A run makes two scratch directories: a workspace, which
is a copy of the repository without what belongs to version control, and an empty home.  The place
for scratch directories may lie inside the repository; they are never copied into themselves.

An entry is not copied if its path, written from the path of the repository, or the path of its copy
is too long, or if the system refuses it.  All others are, but a copy that misses an entry is a
defect, and so is one of directories that are nested too deeply.  How far a copy gets that goes too
deep depends on the order in which directories are listed; here it gets to the end.

`Scratch.prepare` makes the directories and the copy, `Scratch.release` takes them away again, as
far as the system lets it: what it holds stays, and nobody is told.

* `entry?_append_newName`: the locations of fresh scratch directories are free.
* `copyDefect?_eq_none_iff`: a copy without a defect misses nothing.
-/
import ContainerFlow.Fault
import ContainerFlow.System

namespace ContainerFlow

/-- Where the two scratch directories are. -/
structure Scratch where
  workspace : Location
  home : Location
  deriving DecidableEq, Repr

namespace Scratch

/-- What the names of workspace directories start with. -/
def workspaceLabel : String := "actionflow-workspace"

/-- What the names of home directories start with. -/
def homeLabel : String := "actionflow-home"

/-! ## New names -/

/-- How many characters the names on the way to a location have together. -/
def nameLength (place : Location) : Nat := place.foldr (fun name n => name.length + n) 0

/-- How many characters the names on the way to all the entries have together. -/
def totalLength (entries : List (Location × Entry)) : Nat :=
  entries.foldr (fun e n => nameLength e.1 + n) 0

/-- A name that starts with a label and is longer than all the names in a tree together. -/
def newName (t : FileTree) (label : String) : String :=
  label ++ "-" ++ String.ofList (List.replicate (totalLength t.entries) '0')

/-- Two scratch directories in the directory `top`, neither of which is in the tree. -/
def fresh (t : FileTree) (top : Location) : Scratch :=
  ⟨top ++ [newName t workspaceLabel], top ++ [newName t homeLabel]⟩

theorem le_nameLength_append (top : Location) (name : String) :
    name.length ≤ nameLength (top ++ [name]) := by
  induction top with
  | nil => simp [nameLength]
  | cons first rest ih =>
    simp only [nameLength, List.cons_append, List.foldr_cons] at ih ⊢
    omega

theorem nameLength_le_totalLength {entries : List (Location × Entry)} {e : Location × Entry}
    (h : e ∈ entries) : nameLength e.1 ≤ totalLength entries := by
  induction entries with
  | nil => cases h
  | cons d rest ih =>
    simp only [totalLength, List.foldr_cons] at ih ⊢
    rcases List.mem_cons.1 h with rfl | h
    · omega
    · have := ih h
      omega

/-- A new name is new. -/
theorem entry?_append_newName (t : FileTree) (top : Location) (label : String) :
    t.entry? (top ++ [newName t label]) = none := by
  have hnot : ∀ e ∈ t.entries, e.1 ≠ top ++ [newName t label] := by
    intro e he heq
    have hle := nameLength_le_totalLength he
    have hname := le_nameLength_append top (newName t label)
    have hdash : "-".length = 1 := rfl
    rw [← heq] at hname
    simp only [newName, String.length_append, String.length_ofList, List.length_replicate,
      hdash] at hname
    omega
  have hnone : t.entries.find? (·.1 == top ++ [newName t label]) = none := by
    simpa using hnot
  simp [FileTree.entry?, hnone]

/-! ## Copying -/

/-- The name that is left out of the copy, for files as for directories. -/
def ignoredName : String := ".git"

/-- Whether the entry `name` of the directory `here` is left out of the copy. -/
def skips (s : Scratch) (here : Location) (name : String) : Bool :=
  name = ignoredName || here ++ [name] = s.workspace || here ++ [name] = s.home

/-- Whether the copy of `here` goes on to what these names lead to: none of them is left out. -/
def reaches (s : Scratch) (here : Location) : List String → Bool
  | [] => true
  | name :: rest => !s.skips here name && s.reaches (here ++ [name]) rest

/-- The entries of the directory `place` that are to be copied, at locations that start from
there. -/
def selection (s : Scratch) (t : FileTree) (place : Location) : List (Location × Entry) :=
  (t.below place).filter fun e => s.reaches place e.1

/-- A copy of `place`, to which the path `source` leads, to the path `target`. -/
structure Copying where
  place : Location
  source : Path
  target : Path

namespace Copying

/-- Whether both paths of what these names lead to are short enough. -/
def isShort (c : Copying) (names : Location) : Bool :=
  Path.fits (c.source.renderBelow names) && Path.fits (c.target.renderBelow names)

/-- Whether what these names lead to can be copied. -/
def canCopy (c : Copying) (sys : System) (names : Location) : Bool :=
  c.isShort names && sys.admits c.place names

/-- What is reported of missed entries: one that is in a missed directory is not noticed. -/
def lostEntries (c : Copying) (sys : System) (missed : List (Location × Entry)) : List LostEntry :=
  (missed.filter fun e => c.canCopy sys e.1.dropLast).map fun e =>
    .between (c.source.renderBelow e.1) (c.target.renderBelow e.1)
      (sys.copyError? (c.place ++ e.1))

end Copying

/-- The entries that a copy gets. -/
def copied (s : Scratch) (t : FileTree) (c : Copying) (sys : System) : List (Location × Entry) :=
  (s.selection t c.place).filter fun e => c.canCopy sys e.1

/-- The entries that a copy has to do without. -/
def missed (s : Scratch) (t : FileTree) (c : Copying) (sys : System) : List (Location × Entry) :=
  (s.selection t c.place).filter fun e => !c.canCopy sys e.1

/-- The tree with the copy in the workspace. -/
def copy (s : Scratch) (t : FileTree) (c : Copying) (sys : System) : FileTree :=
  ⟨t.entries ++ (s.copied t c sys).map fun e => (s.workspace ++ e.1, e.2)⟩

/-- Whether an entry, at a location that starts from the source of a copy, is a directory that the
copy does not go into. -/
def isTooDeep (sys : System) (e : Location × Entry) : Bool :=
  match sys.depth? with
  | some depth => e.2 = .directory && depth < e.1.length
  | none => false

/-- The defect of a copy that gets some entries and misses others. -/
def copyDefect? (c : Copying) (sys : System) (copied missed : List (Location × Entry)) :
    Option Defect :=
  if copied.any (isTooDeep sys) then some .tooDeep
  else if missed.isEmpty then none
  else some (.lost (.entries (c.lostEntries sys missed)))

/-- A copy without a defect misses nothing, and none of its directories is too deep. -/
theorem copyDefect?_eq_none_iff {c : Copying} {sys : System}
    {copied missed : List (Location × Entry)} :
    copyDefect? c sys copied missed = none ↔
      missed = [] ∧ ∀ e ∈ copied, isTooDeep sys e = false := by
  unfold copyDefect?
  cases hdeep : copied.any (isTooDeep sys) with
  | true =>
    obtain ⟨e, he, he'⟩ := List.any_eq_true.1 hdeep
    simpa using fun _ => ⟨e.1, e.2, he, he'⟩
  | false =>
    have hall : ∀ e ∈ copied, isTooDeep sys e = false := by simpa using hdeep
    cases missed <;> simp_all

/-! ## Preparing and releasing -/

/-- The tree with the two directories, still empty. -/
def make (s : Scratch) (t : FileTree) : FileTree :=
  ⟨t.entries ++ [(s.workspace, .directory), (s.home, .directory)]⟩

/-- Makes the directories, the workspace at the path `target`, and copies what `source` leads to
from `here` into the workspace.  The directories stay when there is nothing to copy, and so does a
copy that has a defect; releasing them is still due. -/
def prepare (s : Scratch) (t : FileTree) (here : Location) (source target : Path)
    (sys : System := {}) : FileTree × Option Defect :=
  if Path.fits target.render then
    let made := s.make t
    match made.directoryAt here source with
    | .ok place =>
      match sys.copyError? place with
      | some text => (made, some (.lost (.said text)))
      | none =>
        let c : Copying := ⟨place, source, target⟩
        (s.copy made c sys, copyDefect? c sys (s.copied made c sys) (s.missed made c sys))
    | .error problem => (made, some (.path ⟨problem, source⟩))
  else (t, some (.path ⟨.tooLong, target⟩))

/-- Takes the directories away, unless they are to be kept. -/
def release (s : Scratch) (keep : Bool) (t : FileTree) (sys : System := {}) : FileTree :=
  if keep then t else (t.remove s.workspace sys.holds).remove s.home sys.holds

/-- Whether a name is a label with an ending, as those of scratch directories are. -/
def hasLabel (label name : String) : Bool := (label ++ "-").toList.isPrefixOf name.toList

/-- The labels of the scratch directories, of this run or of others, that are in the directory
`top`, in order. -/
def leftovers (t : FileTree) (top : Location) : List String :=
  [homeLabel, workspaceLabel].flatMap fun label =>
    ((t.namesIn top).filter (hasLabel label)).map fun _ => label

end Scratch

end ContainerFlow
