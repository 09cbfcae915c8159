/-
ContainerFlow.Token — strings, names and symbols.

A workflow file is a row of strings, names and symbols, with blanks and comments between them.  A
lexeme is what a token says, a token is a lexeme at its place.  `Lexeme.text` gives back the
characters that a lexeme was written with.
-/
import ContainerFlow.Text.Position

namespace ContainerFlow

/-- The six symbols of workflow files. -/
inductive Symbol where
  | leftBrace
  | rightBrace
  | leftBracket
  | rightBracket
  | equals
  | comma
  deriving DecidableEq, Repr

namespace Symbol

/-- The character that writes a symbol. -/
def char : Symbol → Char
  | .leftBrace => '\x7b'
  | .rightBrace => '\x7d'
  | .leftBracket => '['
  | .rightBracket => ']'
  | .equals => '='
  | .comma => ','

/-- The symbol that a character writes. -/
def ofChar? : Char → Option Symbol
  | '\x7b' => some .leftBrace
  | '\x7d' => some .rightBrace
  | '[' => some .leftBracket
  | ']' => some .rightBracket
  | '=' => some .equals
  | ',' => some .comma
  | _ => none

theorem ofChar?_char (s : Symbol) : ofChar? s.char = some s := by cases s <;> rfl

theorem char_of_ofChar? {c : Char} {s : Symbol} (h : ofChar? c = some s) : s.char = c := by
  unfold ofChar? at h
  split at h <;> first | (cases h; rfl) | cases h

end Symbol

/-- What a token says.  A string keeps the characters between its quotes as they stand: a backslash
only keeps the next character from ending the string. -/
inductive Lexeme where
  | string (body : String)
  | name (text : String)
  | symbol (s : Symbol)
  deriving DecidableEq, Repr

namespace Lexeme

/-- The characters that a lexeme is written with. -/
def chars : Lexeme → List Char
  | .string body => '\x22' :: body.toList ++ ['\x22']
  | .name text => text.toList
  | .symbol s => [s.char]

/-- The text that a lexeme is written with. -/
def text (l : Lexeme) : String := String.ofList l.chars

end Lexeme

/-- A lexeme and where its first character stands. -/
structure Token where
  lexeme : Lexeme
  position : Position
  deriving DecidableEq, Repr

end ContainerFlow
