/-
ContainerFlow.Text.Words — splitting a text at blanks.

A text splits into words at the five characters space, tab, line feed, form feed and carriage
return.  All other characters, also other Unicode spaces, stay inside a word, and runs of
separators, also at the ends, give no empty words.
-/
import ContainerFlow.Text.Pieces

namespace ContainerFlow.Text

/-- Whether a character separates words. -/
def isSeparator (c : Char) : Bool :=
  c = ' ' || c = '\t' || c = '\n' || c = '\x0c' || c = '\r'

/-- The words of a text, in order. -/
def words (text : String) : List String := filledPieces isSeparator text

end ContainerFlow.Text
