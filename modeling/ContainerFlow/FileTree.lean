/-
ContainerFlow.FileTree — directories and files at their locations.

A file tree holds directories and files, each at its location: the names that lead to it from the
top.  The top itself is always a directory.  Trees are values: to add and to remove gives a new
tree, and what lies elsewhere stays as it was.

`FileTree.resolve` follows a path as the file system does, part by part from where it stands, so a
part that says "up" counts only behind a directory that is there.
-/
import ContainerFlow.Path.Fault

namespace ContainerFlow

/-- The names that lead to a place in a tree, from the top. -/
abbrev Location := List String

/-- What is at a location. -/
inductive Entry where
  | directory
  | file (content : ByteArray)

instance : DecidableEq Entry
  | .directory, .directory => isTrue rfl
  | .directory, .file _ => isFalse nofun
  | .file _, .directory => isFalse nofun
  | .file a, .file b =>
    match a.instDecidableEq b with
    | isTrue h => isTrue (by rw [h])
    | isFalse h => isFalse fun heq => h (Entry.file.inj heq)

/-- Entries at their locations. -/
structure FileTree where
  entries : List (Location × Entry)
  deriving DecidableEq

namespace FileTree

/-- The tree with nothing but the top. -/
def empty : FileTree := ⟨[]⟩

/-- The entry at a location. -/
def entry? (t : FileTree) (place : Location) : Option Entry :=
  if place = [] then some .directory
  else (t.entries.find? (·.1 == place)).map Prod.snd

/-- The tree with one more entry, unless the location is taken. -/
def insert (t : FileTree) (place : Location) (e : Entry) : FileTree :=
  if (t.entry? place).isSome then t else ⟨t.entries ++ [(place, e)]⟩

/-- The tree with directories at every location on the way from `here` through `names`. -/
def makeDirectories (t : FileTree) (here : Location) : List String → FileTree
  | [] => t
  | name :: rest =>
    (t.insert (here ++ [name]) .directory).makeDirectories (here ++ [name]) rest

/-- The tree with an entry at a location, and directories at all locations above it. -/
def put (t : FileTree) (place : Location) (e : Entry) : FileTree :=
  (t.makeDirectories [] place.dropLast).insert place e

/-- Whether a location is `top` or below it. -/
def isWithin (top place : Location) : Bool := top.isPrefixOf place

/-- Whether something at a location or below it is held. -/
def isHeld (t : FileTree) (held : Location → Bool) (place : Location) : Bool :=
  t.entries.any fun e => isWithin place e.1 && held e.1

/-- The tree without what is at a location or below it, as far as that can be taken away: what is
held stays, with the directories that it is in. -/
def remove (t : FileTree) (top : Location) (held : Location → Bool) : FileTree :=
  ⟨t.entries.filter fun e => !isWithin top e.1 || t.isHeld held e.1⟩

/-- What is below a location, at locations that start from there. -/
def below (t : FileTree) (top : Location) : List (Location × Entry) :=
  t.entries.filterMap fun e =>
    if isWithin top e.1 && e.1 ≠ top then some (e.1.drop top.length, e.2) else none

/-- What is below a location, in the order of the names on the way. -/
def sortedBelow (t : FileTree) (top : Location) : List (Location × Entry) :=
  (t.below top).mergeSort fun a b => decide (¬ b.1 < a.1)

/-- The names of what is in a directory. -/
def namesIn (t : FileTree) (top : Location) : List String :=
  (t.below top).filterMap fun e => if e.1.length = 1 then e.1.head? else none

/-- A location below a directory, as listings write it: directories end in a slash. -/
def listingLine (e : Location × Entry) : String :=
  match e.2 with
  | .directory => "/".intercalate e.1 ++ "/"
  | .file _ => "/".intercalate e.1

/-! ## Following paths -/

/-- Follows the parts of a path from a location. -/
def follow (t : FileTree) (here : Location) : List String → Except PathProblem Location
  | [] => .ok here
  | part :: rest =>
    match t.entry? here with
    | some .directory =>
      if part = Path.upPart then t.follow here.dropLast rest
      else if part.utf8ByteSize > Path.nameLimit then .error .tooLong
      else if (t.entry? (here ++ [part])).isSome then t.follow (here ++ [part]) rest
      else .error .missing
    | some (.file _) => .error .notDirectory
    | none => .error .missing

/-- The location that a path leads to for one who stands at `here`. -/
def resolve (t : FileTree) (here : Location) (p : Path) : Except PathProblem Location :=
  match Path.textProblem? p.render with
  | some problem => .error problem
  | none =>
    match p.start with
    | .here => t.follow here p.parts
    | _ => t.follow [] p.parts

/-- What a path leads to. -/
def lookup (t : FileTree) (here : Location) (p : Path) : Except PathProblem Entry :=
  match t.resolve here p with
  | .ok place =>
    match t.entry? place with
    | some e => .ok e
    | none => .error .missing
  | .error problem => .error problem

/-- The directory that a path leads to. -/
def directoryAt (t : FileTree) (here : Location) (p : Path) : Except PathProblem Location :=
  match t.resolve here p with
  | .ok place =>
    match t.entry? place with
    | some .directory => .ok place
    | some (.file _) => .error .notDirectory
    | none => .error .missing
  | .error problem => .error problem

end FileTree

end ContainerFlow
