/-
ContainerFlow.Path.Home — paths that start from a home directory.

A path whose first part starts with a tilde starts from a home directory: a lone tilde stands for
one's own, and a tilde with a name behind it for that of the account.
-/
import ContainerFlow.Path.Fault

namespace ContainerFlow

/-- Where home directories are: one's own, and those of accounts by name. -/
structure Homes where
  own : String
  accounts : List (String × String)
  deriving DecidableEq, Repr

namespace Homes

/-- The text that says where a home directory is.  The empty name is one's own. -/
def text? (h : Homes) (name : String) : Option String :=
  if name = "" then some h.own else (h.accounts.find? (·.1 = name)).map Prod.snd

/-- The directory that a text names as a home.  Slashes alone name the top, and so does a text
without anything; a text that starts from a home itself names none. -/
def directoryOf? (text : String) : Option Path :=
  if text.toList.head? = some Path.homeMark then none
  else if text.toList.all (· = '/') then some ⟨.top, []⟩
  else some (Path.ofText text)

/-- The home directory of a name. -/
def directory? (h : Homes) (name : String) : Option Path := (h.text? name).bind directoryOf?

end Homes

namespace Path

/-- The path with the home directory put in for a first part that stands for it. -/
def expandHome (p : Path) (homes : Homes) : Except PathProblem Path :=
  match p with
  | ⟨.here, part :: rest⟩ =>
    if part.toList.head? = some homeMark then
      let name := String.ofList part.toList.tail
      if holdsZero name then .error .zeroCharacter
      else
        match homes.directory? name with
        | some home => .ok ⟨home.start, home.parts ++ rest⟩
        | none => .error .homeUnknown
    else .ok p
  | _ => .ok p

end Path

end ContainerFlow
