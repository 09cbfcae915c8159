/-
ContainerFlow.Json — JSON documents and how they are written.

Values of JSON, and the one way in which this program writes them: members and items on lines of
their own, two blanks deeper than what holds them, and empty objects and arrays closed up.  In
strings only the quotation mark, the backslash and the characters below U+0020 are escaped.
-/
import ContainerFlow.Text.Quoted

namespace ContainerFlow

/-- A JSON value.  Objects keep the order of their members. -/
inductive Json where
  | null
  | number (n : Nat)
  | string (text : String)
  | array (items : List Json)
  | object (members : List (String × Json))

namespace Json

/-- The array of these strings. -/
def strings (items : List String) : Json := .array (items.map .string)

/-! ## Strings -/

/-- A character as it is written in a string. -/
def stringChar (c : Char) : List Char :=
  if c = '\x22' then ['\\', '\x22']
  else if c = '\\' then ['\\', '\\']
  else if c = '\x08' then ['\\', 'b']
  else if c = '\t' then ['\\', 't']
  else if c = '\n' then ['\\', 'n']
  else if c = '\x0c' then ['\\', 'f']
  else if c = '\r' then ['\\', 'r']
  else if c.toNat < 0x20 then '\\' :: 'u' :: Text.hexDigits 4 c.toNat
  else [c]

/-- A string with its quotes. -/
def writeString (text : String) : List Char :=
  '\x22' :: text.toList.flatMap stringChar ++ ['\x22']

/-! ## Values -/

/-- A new line, `depth` levels deep. -/
def newLine (depth : Nat) : List Char := '\n' :: List.replicate (2 * depth) ' '

/-- What stands between an item and `rest`, the items after it. -/
def separator {α : Type} (rest : List α) : List Char := if rest.isEmpty then [] else [',']

mutual
/-- A value that starts `depth` levels deep. -/
def write (depth : Nat) : Json → List Char
  | .null => ['n', 'u', 'l', 'l']
  | .number n => Nat.toDigits 10 n
  | .string text => writeString text
  | .array [] => ['[', ']']
  | .array (item :: rest) => '[' :: writeItems (depth + 1) (item :: rest) ++ newLine depth ++ [']']
  | .object [] => ['\x7b', '\x7d']
  | .object (member :: rest) =>
    '\x7b' :: writeMembers (depth + 1) (member :: rest) ++ newLine depth ++ ['\x7d']

/-- Items, each on a line of its own. -/
def writeItems (depth : Nat) : List Json → List Char
  | [] => []
  | item :: rest =>
    newLine depth ++ write depth item ++ separator rest ++ writeItems depth rest

/-- Members, each on a line of its own. -/
def writeMembers (depth : Nat) : List (String × Json) → List Char
  | [] => []
  | (name, value) :: rest =>
    newLine depth ++ writeString name ++ [':', ' '] ++ write depth value ++ separator rest ++
      writeMembers depth rest
end

/-- A document. -/
def render (j : Json) : String := String.ofList (j.write 0)

end Json

end ContainerFlow
