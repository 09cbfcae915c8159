/-
ContainerFlow.Text.Position — lines and columns.

A position names a line and a column, both counted from one, in code points.  Only a line feed ends
a line: a carriage return takes up a column like any other character.

`Position.advance` moves past one character, and `Position.after` past several; the two agree on
appended texts (`Position.after_append`), so a reader may move chunk by chunk.
-/

namespace ContainerFlow

/-- A line and a column.  The numbers are integers because a fault may be reported at any place,
also at one that no text has. -/
structure Position where
  line : Int
  column : Int
  deriving DecidableEq, Repr

namespace Position

/-- Where every text starts. -/
def start : Position := ⟨1, 1⟩

/-- The position behind the character `c` that stands at `p`. -/
def advance (p : Position) (c : Char) : Position :=
  if c = '\n' then ⟨p.line + 1, 1⟩ else ⟨p.line, p.column + 1⟩

/-- The position behind the characters `cs`, the first of which stands at `p`. -/
def after (p : Position) (cs : List Char) : Position := cs.foldl advance p

@[simp] theorem after_nil (p : Position) : p.after [] = p := rfl

@[simp] theorem after_cons (p : Position) (c : Char) (cs : List Char) :
    p.after (c :: cs) = (p.advance c).after cs := rfl

theorem after_append (p : Position) (cs ds : List Char) :
    p.after (cs ++ ds) = (p.after cs).after ds :=
  List.foldl_append

/-- The position as messages write it: line, colon, column. -/
def render (p : Position) : String := s!"{p.line}:{p.column}"

end Position

end ContainerFlow
