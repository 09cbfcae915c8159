/-
ContainerFlow.Path.Fault — why a path cannot be followed.

Why a path cannot be followed, and how that reads.  Some paths are refused before anything is looked
up: no path holds the character U+0000, and file systems limit the length of a path and of the names
in it.
-/
import ContainerFlow.Path
import ContainerFlow.Text.Quoted

namespace ContainerFlow

/-- Why a path cannot be followed. -/
inductive PathProblem where
  /-- There is nothing. -/
  | missing
  /-- The path goes on behind a file, or a directory was asked for and there is a file. -/
  | notDirectory
  /-- The path, or a name in it, is longer than file systems take. -/
  | tooLong
  /-- The path holds the character U+0000. -/
  | zeroCharacter
  /-- The path starts from a home directory that nobody knows. -/
  | homeUnknown
  deriving DecidableEq, Repr

/-- A problem with the path that this text writes, in words. -/
def PathProblem.message (problem : PathProblem) (text : String) : String :=
  let path := Text.quoted text
  match problem with
  | .missing => s!"[Errno 2] No such file or directory: {path}"
  | .notDirectory => s!"[Errno 20] Not a directory: {path}"
  | .tooLong => s!"[Errno 36] File name too long: {path}"
  | .zeroCharacter => "embedded null byte"
  | .homeUnknown => "Could not determine home directory."

/-- A path that cannot be followed. -/
structure PathFault where
  problem : PathProblem
  path : Path
  deriving DecidableEq, Repr

/-- A path fault in words. -/
def PathFault.message (f : PathFault) : String := f.problem.message f.path.render

namespace Path

/-- How many bytes a path may have, written in UTF-8. -/
def lengthLimit : Nat := 4095

/-- How many bytes a name may have, written in UTF-8. -/
def nameLimit : Nat := 255

/-- Whether a text is short enough to be a path. -/
def fits (text : String) : Bool := text.utf8ByteSize ≤ lengthLimit

/-- Whether a text holds the character U+0000. -/
def holdsZero (text : String) : Bool := text.toList.contains '\x00'

/-- Why a text cannot be a path, whatever the file system holds. -/
def textProblem? (text : String) : Option PathProblem :=
  if holdsZero text then some .zeroCharacter
  else if fits text then none
  else some .tooLong

end Path

end ContainerFlow
