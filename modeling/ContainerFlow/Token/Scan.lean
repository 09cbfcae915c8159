/-
ContainerFlow.Token.Scan — cutting a text into tokens.

A text is cut piece by piece: runs of blanks, comments (`#` or `//` up to the end of the line) and
lexemes.  `cut` takes the first piece off, `scan` goes on to the end of the text or to the first
place at which no piece starts.

* `chars_append_of_cut`: a piece and what is left of the text make up the text again.
* `chars_ne_nil_of_cut`: no piece is empty, so cutting comes to an end.
-/
import ContainerFlow.Fault

namespace ContainerFlow

/-! ## Characters -/

/-- Whether a character is a blank between tokens. -/
def isLayout (c : Char) : Bool := c = ' ' || c = '\t' || c = '\r' || c = '\n'

/-- Whether a name may start with the character: an ASCII letter or a low line. -/
def isNameStart (c : Char) : Bool := c.isAlpha || c = '_'

/-- Whether a name may go on with the character: also digits and hyphens. -/
def isNameChar (c : Char) : Bool := c.isAlphanum || c = '_' || c = '-'

/-- The characters of a string up to its closing quote, and what follows the quote.  A backslash
takes the next character along; a string ends neither at the end of a line nor at the end of the
text. -/
def stringBody : List Char → Option (List Char × List Char)
  | [] => none
  | '\n' :: _ => none
  | '\x22' :: rest => some ([], rest)
  | '\\' :: c :: rest =>
    if c = '\n' then none
    else (stringBody rest).map fun (body, rest) => ('\\' :: c :: body, rest)
  | c :: rest =>
    if c = '\\' then none else (stringBody rest).map fun (body, rest) => (c :: body, rest)

theorem append_of_stringBody {cs body rest : List Char} (h : stringBody cs = some (body, rest)) :
    cs = body ++ '\x22' :: rest := by
  fun_induction stringBody cs generalizing body with
  | case1 => cases h
  | case2 => cases h
  | case3 => cases h; rfl
  | case4 => simp_all
  | case5 c tail hc ih =>
    obtain ⟨⟨b, r⟩, hb, he⟩ := Option.map_eq_some_iff.1 h
    cases he
    simp [ih hb]
  | case6 => simp_all
  | case7 c tail _ _ _ _ ih =>
    obtain ⟨⟨b, r⟩, hb, he⟩ := Option.map_eq_some_iff.1 h
    cases he
    simp [ih hb]

/-! ## Pieces -/

/-- What a text is cut into. -/
inductive Piece where
  | layout (chars : List Char)
  | comment (chars : List Char)
  | lexeme (l : Lexeme)
  deriving DecidableEq, Repr

namespace Piece

/-- The characters that a piece was cut from. -/
def chars : Piece → List Char
  | .layout chars => chars
  | .comment chars => chars
  | .lexeme l => l.chars

/-- The tokens of a piece that starts at `position`: one or none. -/
def tokens (position : Position) : Piece → List Token
  | .lexeme l => [⟨l, position⟩]
  | .layout _ | .comment _ => []

end Piece

/-- Whether a comment starts with the character `c` before `rest`. -/
def startsComment (c : Char) (rest : List Char) : Bool :=
  c = '#' || (c = '/' && rest.head? = some '/')

/-- The first piece of the text `c :: rest`, and what follows it. -/
def cut (c : Char) (rest : List Char) : Except Malformation (Piece × List Char) :=
  if isLayout c then
    .ok (.layout (c :: rest.takeWhile isLayout), rest.dropWhile isLayout)
  else if startsComment c rest then
    .ok (.comment (c :: rest.takeWhile (· ≠ '\n')), rest.dropWhile (· ≠ '\n'))
  else if c = '\x22' then
    match stringBody rest with
    | some (body, rest) => .ok (.lexeme (.string (String.ofList body)), rest)
    | none => .error .unterminatedString
  else if isNameStart c then
    .ok (.lexeme (.name (String.ofList (c :: rest.takeWhile isNameChar))),
      rest.dropWhile isNameChar)
  else
    match Symbol.ofChar? c with
    | some s => .ok (.lexeme (.symbol s), rest)
    | none => .error (.unexpectedCharacter c)

theorem chars_append_of_cut {c : Char} {rest left : List Char} {piece : Piece}
    (h : cut c rest = .ok (piece, left)) : piece.chars ++ left = c :: rest := by
  unfold cut at h
  split at h
  · cases h
    simp [Piece.chars, List.takeWhile_append_dropWhile]
  split at h
  · cases h
    simp [Piece.chars, List.takeWhile_append_dropWhile]
  split at h
  · next hc =>
    split at h
    · next hb =>
      cases h
      simp [Piece.chars, Lexeme.chars, hc, append_of_stringBody hb]
    · cases h
  split at h
  · cases h
    simp [Piece.chars, Lexeme.chars, List.takeWhile_append_dropWhile]
  split at h
  · next hs =>
    cases h
    simp [Piece.chars, Lexeme.chars, Symbol.char_of_ofChar? hs]
  · cases h

theorem chars_ne_nil_of_cut {c : Char} {rest left : List Char} {piece : Piece}
    (h : cut c rest = .ok (piece, left)) : piece.chars ≠ [] := by
  unfold cut at h
  split at h
  · cases h; simp [Piece.chars]
  split at h
  · cases h; simp [Piece.chars]
  split at h
  · split at h <;> cases h
    simp [Piece.chars, Lexeme.chars]
  split at h
  · cases h; simp [Piece.chars, Lexeme.chars]
  split at h <;> cases h
  simp [Piece.chars, Lexeme.chars]

theorem length_lt_of_cut {c : Char} {rest left : List Char} {piece : Piece}
    (h : cut c rest = .ok (piece, left)) : left.length < (c :: rest).length := by
  have hne := List.length_pos_iff.2 (chars_ne_nil_of_cut h)
  rw [← chars_append_of_cut h, List.length_append]
  omega

/-! ## Scanning -/

/-- Where a scan ended, and why. -/
inductive ScanEnd where
  /-- At the end of the text. -/
  | finished (position : Position)
  /-- At a place where no piece starts. -/
  | stopped (why : Malformation) (position : Position)
  deriving DecidableEq, Repr

/-- The tokens of a text, up to the end of the scan. -/
structure Scan where
  tokens : List Token
  ending : ScanEnd
  deriving DecidableEq, Repr

/-- Scans the characters, the first of which stands at `position`. -/
def scanFrom (position : Position) (cs : List Char) : Scan :=
  match cs with
  | [] => ⟨[], .finished position⟩
  | c :: rest =>
    match _h : cut c rest with
    | .error why => ⟨[], .stopped why position⟩
    | .ok (piece, left) =>
      let later := scanFrom (position.after piece.chars) left
      ⟨piece.tokens position ++ later.tokens, later.ending⟩
termination_by cs.length
decreasing_by exact length_lt_of_cut _h

/-- Scans a whole text. -/
def scan (text : String) : Scan := scanFrom .start text.toList

end ContainerFlow
