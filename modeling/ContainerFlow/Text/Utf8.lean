/-
ContainerFlow.Text.Utf8 — reading bytes as text.

Files hold bytes.  They are read as strict UTF-8: no surrogates, no overlong forms, nothing above
the last code point, and a byte order mark is a character like any other.  Bytes that are no text
are refused with the place where the first sequence that is no character starts.
-/

namespace ContainerFlow.Text

/-- Where the characters that start at byte `i` end: at the first byte at which no whole character
starts. -/
def validUntil (bytes : ByteArray) (i : Nat) : Nat :=
  if i < bytes.size then
    match bytes.utf8DecodeChar? i with
    | some c => validUntil bytes (i + c.utf8Size)
    | none => i
  else i
termination_by bytes.size - i
decreasing_by
  have := c.utf8Size_pos
  omega

/-- The text that the bytes encode, or the number of bytes before the first that start no
character. -/
def decodeUtf8 (bytes : ByteArray) : Except Nat String :=
  match String.fromUTF8? bytes with
  | some text => .ok text
  | none => .error (validUntil bytes 0)

end ContainerFlow.Text
