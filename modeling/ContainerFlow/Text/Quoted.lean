/-
ContainerFlow.Text.Quoted — a piece of text in a message.

Messages that show a piece of the user's text put it in quotes and write the characters that would
be lost on a terminal as escapes:

* the quote is an apostrophe, or a quotation mark when the text holds an apostrophe and no
  quotation mark;
* the quote and the backslash get a backslash in front;
* line feed, carriage return and tab are written `\n`, `\r`, `\t`;
* any other unprintable character is written by its code point, as `\x` with two hexadecimal
  digits, `\u` with four or `\U` with eight, the shortest that holds it;
* every other character is written as it is.
-/
import ContainerFlow.Text.Printable

namespace ContainerFlow.Text

/-- The quote that is used where possible. -/
def apostrophe : Char := '\x27'

/-- The quote for texts that hold an apostrophe and no quotation mark. -/
def quotationMark : Char := '\x22'

/-- The lower-case hexadecimal digit of a number below sixteen. -/
def hexDigit (n : Nat) : Char :=
  if n < 10 then Char.ofNat (0x30 + n) else Char.ofNat (0x57 + n)

/-- The last `width` hexadecimal digits of `n`, the most significant first. -/
def hexDigits : Nat → Nat → List Char
  | 0, _ => []
  | width + 1, n => hexDigits width (n / 16) ++ [hexDigit (n % 16)]

theorem length_hexDigits (width n : Nat) : (hexDigits width n).length = width := by
  induction width generalizing n with
  | zero => rfl
  | succ width ih => simp [hexDigits, ih]

/-- A character written by its code point. -/
def codePointEscape (c : Char) : List Char :=
  if c.toNat < 0x100 then '\\' :: 'x' :: hexDigits 2 c.toNat
  else if c.toNat < 0x10000 then '\\' :: 'u' :: hexDigits 4 c.toNat
  else '\\' :: 'U' :: hexDigits 8 c.toNat

/-- A character as it is written between the quotes `quote`. -/
def quotedChar (quote c : Char) : List Char :=
  if c = quote ∨ c = '\\' then ['\\', c]
  else if c = '\n' then ['\\', 'n']
  else if c = '\r' then ['\\', 'r']
  else if c = '\t' then ['\\', 't']
  else if isPrintable c then [c]
  else codePointEscape c

/-- The quote that goes round a text. -/
def quoteFor (cs : List Char) : Char :=
  if cs.contains apostrophe && !cs.contains quotationMark then quotationMark else apostrophe

/-- The text in quotes, its characters escaped where they must be. -/
def quoted (text : String) : String :=
  let cs := text.toList
  let quote := quoteFor cs
  String.ofList (quote :: cs.flatMap (quotedChar quote) ++ [quote])

end ContainerFlow.Text
