/-
ContainerFlow.Path — paths and how they are written.

A path is written with slashes.  Read as a path, a text loses what does not change its meaning:
repeated slashes, and parts that say "here".  Parts that say "up" stay, because what lies above a
part is known only to the file system.  Two slashes in front, and no more, are kept as they are.
-/
import ContainerFlow.Text.Pieces

namespace ContainerFlow

/-- Where a path starts from. -/
inductive PathStart where
  | here
  | top
  /-- A top of its own, written with two slashes. -/
  | otherTop
  deriving DecidableEq, Repr

/-- A start, and the parts to go through from there. -/
structure Path where
  start : PathStart
  parts : List String
  deriving DecidableEq, Repr

namespace Path

/-- The part that says "here". -/
def herePart : String := "."

/-- The part that says "up". -/
def upPart : String := ".."

/-- What a part that stands for a home directory starts with. -/
def homeMark : Char := '~'

/-- Where a text starts from, told by the number of slashes in front. -/
def startOfText (text : String) : PathStart :=
  match (text.toList.takeWhile (· = '/')).length with
  | 0 => .here
  | 2 => .otherTop
  | _ => .top

/-- The path that a text writes. -/
def ofText (text : String) : Path :=
  ⟨startOfText text, (Text.filledPieces (· = '/') text).filter (· ≠ herePart)⟩

/-- What the start of a path is written with. -/
def startText : PathStart → String
  | .here => ""
  | .top => "/"
  | .otherTop => "//"

/-- A path as a text.  The path that goes nowhere is written as "here". -/
def render (p : Path) : String :=
  match p.start, p.parts with
  | .here, [] => herePart
  | start, parts => startText start ++ "/".intercalate parts

/-- The path of what is below a path, as one writes it who looks through directories: the names
are put behind the text of the path, whatever it says. -/
def renderBelow (p : Path) (names : List String) : String :=
  match p.start, p.parts with
  | .here, [] => "/".intercalate (herePart :: names)
  | start, parts => startText start ++ "/".intercalate (parts ++ names)

/-- Nothing below a path is the path itself. -/
theorem renderBelow_nil (p : Path) : p.renderBelow [] = p.render := by
  obtain ⟨start, parts⟩ := p
  cases start <;> cases parts <;> simp [renderBelow, render]

/-- The path `q` taken from the end of `p`; a path that starts at a top does not care. -/
def join (p q : Path) : Path :=
  match q.start with
  | .here => ⟨p.start, p.parts ++ q.parts⟩
  | _ => q

end Path

end ContainerFlow
