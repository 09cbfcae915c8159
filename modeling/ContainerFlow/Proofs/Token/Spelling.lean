/-
ContainerFlow.Proofs.Token.Spelling — how tokens, and the gaps between
them, are written.

Strings, names, blanks and comments are described here by the characters
that they consist of, and not by how they are found: `StringBody`,
`IsName`, `IsGap`.  Two things depend on what follows in the text: a name
goes on as long as it can (`Lexeme.EndsBefore`), and a comment goes on to
the end of its line.

* `stringBody_eq_some_iff` — what is read up to the closing quote is what
  may stand between quotes, and whatever may stand there is read.
* `proper_of_cut` — the first piece of a text is part of a gap, or a
  lexeme that is written as it has to be.
* `nothingStarts_of_cut` — at a place where no piece is found, none
  starts.
-/
import Mathlib.Data.List.DropRight
import ContainerFlow.Token.Scan

namespace ContainerFlow

/-! ## Strings -/

/-- What may stand between the quotes of a string: characters other than a quotation mark, a
backslash and a line feed, and pairs of a backslash and a character other than a line feed. -/
inductive StringBody : List Char → Prop where
  | nil : StringBody []
  | plain {c : Char} {cs : List Char} (quote : c ≠ '\x22') (backslash : c ≠ '\\') (line : c ≠ '\n')
      (rest : StringBody cs) : StringBody (c :: cs)
  | escaped {c : Char} {cs : List Char} (line : c ≠ '\n') (rest : StringBody cs) :
      StringBody ('\\' :: c :: cs)

theorem stringBody_of_some {cs body left : List Char} (h : stringBody cs = some (body, left)) :
    StringBody body := by
  fun_induction stringBody cs generalizing body with
  | case1 => cases h
  | case2 => cases h
  | case3 =>
    cases h
    exact .nil
  | case4 => cases h
  | case5 c tail hc ih =>
    obtain ⟨⟨b, r⟩, hb, he⟩ := Option.map_eq_some_iff.mp h
    cases he
    exact .escaped hc (ih hb)
  | case6 => cases h
  | case7 c tail hline hquote _ hslash ih =>
    obtain ⟨⟨b, r⟩, hb, he⟩ := Option.map_eq_some_iff.mp h
    cases he
    exact .plain hquote hslash hline (ih hb)

theorem StringBody.some_append {body : List Char} (h : StringBody body) (left : List Char) :
    stringBody (body ++ '\x22' :: left) = some (body, left) := by
  induction h with
  | nil => rfl
  | @plain c cs hquote hslash hline _ ih =>
    rw [List.cons_append, stringBody, if_neg hslash, ih]
    · rfl
    · exact hline
    · exact hquote
    · exact fun _ _ hc _ => hslash hc
  | escaped hline _ ih =>
    rw [List.cons_append, List.cons_append, stringBody, if_neg hline, ih]
    rfl

/-- What is read up to the closing quote is what may stand between quotes, all of it and nothing
else. -/
theorem stringBody_eq_some_iff {cs body left : List Char} :
    stringBody cs = some (body, left) ↔ StringBody body ∧ cs = body ++ '\x22' :: left := by
  constructor
  · intro h
    exact ⟨stringBody_of_some h, append_of_stringBody h⟩
  · rintro ⟨hbody, rfl⟩
    exact hbody.some_append left

/-! ## Lexemes -/

/-- A name: an ASCII letter or a low line, and then also digits and hyphens. -/
def IsName (cs : List Char) : Prop :=
  ∃ c rest, cs = c :: rest ∧ isNameStart c ∧ ∀ d ∈ rest, isNameChar d

namespace Lexeme

/-- The lexeme is written with characters that it may be written with. -/
def Spelled : Lexeme → Prop
  | .string body => StringBody body.toList
  | .name text => IsName text.toList
  | .symbol _ => True

/-- The lexeme does not go on in the characters `after` that follow it. -/
def EndsBefore (after : List Char) : Lexeme → Prop
  | .name _ => ∀ c ∈ after.head?, isNameChar c = false
  | .string _ | .symbol _ => True

theorem chars_ne_nil_of_spelled {l : Lexeme} (h : l.Spelled) : l.chars ≠ [] := by
  cases l with
  | string body => simp [chars]
  | name text =>
    obtain ⟨c, rest, hchars, -⟩ := h
    simp [chars, hchars]
  | symbol s => simp [chars]

/-- A lexeme starts with a quote behind which the rest of a string stands, with a character that
starts names, or with a character that is a symbol. -/
theorem starts {l : Lexeme} {after rest : List Char} {c : Char} (h : l.Spelled)
    (hcs : l.chars ++ after = c :: rest) :
    (c = '\x22' ∧ stringBody rest ≠ none) ∨ isNameStart c ∨ Symbol.ofChar? c ≠ none := by
  cases l with
  | string body =>
    simp only [chars, List.cons_append, List.append_assoc, List.cons.injEq] at hcs
    obtain ⟨rfl, rfl⟩ := hcs
    exact .inl ⟨rfl, by simp [StringBody.some_append h after]⟩
  | name text =>
    obtain ⟨d, tail, htext, hd, -⟩ := h
    simp only [chars, htext, List.cons_append, List.cons.injEq] at hcs
    exact .inr (.inl (hcs.1 ▸ hd))
  | symbol s =>
    simp only [chars, List.cons_append, List.cons.injEq] at hcs
    exact .inr (.inr (by simp [← hcs.1, Symbol.ofChar?_char]))

end Lexeme

/-! ## Gaps -/

/-- What may stand between two tokens, or before the first or behind the last, when `after` follows:
blanks, and comments that go on up to the end of their line. -/
inductive IsGap (after : List Char) : List Char → Prop where
  | nil : IsGap after []
  | blank {c : Char} {cs : List Char} (blank : c = ' ' ∨ c = '\t' ∨ c = '\r' ∨ c = '\n')
      (rest : IsGap after cs) : IsGap after (c :: cs)
  | comment {sign body cs : List Char} (sign_eq : sign = ['#'] ∨ sign = ['/', '/'])
      (line : '\n' ∉ body) (stop : ∀ c ∈ (cs ++ after).head?, c = '\n') (rest : IsGap after cs) :
      IsGap after (sign ++ body ++ cs)

theorem isLayout_iff {c : Char} : isLayout c ↔ c = ' ' ∨ c = '\t' ∨ c = '\r' ∨ c = '\n' := by
  simp [isLayout, or_assoc]

namespace IsGap

/-- A gap may go on as another gap. -/
theorem append {after first second : List Char} (hfirst : IsGap (second ++ after) first)
    (hsecond : IsGap after second) : IsGap after (first ++ second) := by
  induction hfirst with
  | nil => exact hsecond
  | blank hblank _ ih => exact .blank hblank ih
  | @comment sign body cs hsign hline hstop _ ih =>
    rw [List.append_assoc]
    exact .comment hsign hline (by simpa using hstop) ih

theorem of_blanks {after cs : List Char} (h : ∀ c ∈ cs, isLayout c) : IsGap after cs := by
  induction cs with
  | nil => exact .nil
  | cons c rest ih =>
    obtain ⟨hc, hrest⟩ := List.forall_mem_cons.mp h
    exact .blank (isLayout_iff.mp hc) (ih hrest)

/-- A gap that is not empty starts with a blank or with a comment. -/
theorem starts {after cs rest : List Char} {c : Char} (h : IsGap after cs)
    (hne : cs ≠ []) (hcs : cs ++ after = c :: rest) : isLayout c ∨ startsComment c rest := by
  cases h with
  | nil => exact absurd rfl hne
  | blank hblank _ =>
    cases hcs
    exact .inl (isLayout_iff.mpr hblank)
  | comment hsign _ _ _ =>
    rcases hsign with rfl | rfl <;>
    · cases hcs
      exact .inr (by simp [startsComment])

end IsGap

/-! ## The first piece of a text -/

/-- What may follow the longest beginning of a text whose characters satisfy `p`. -/
theorem eq_false_of_mem_head?_dropWhile {p : Char → Bool} {cs : List Char} {c : Char}
    (h : c ∈ (cs.dropWhile p).head?) : p c = false := by
  have hstop := List.head?_dropWhile_not p cs
  rw [Option.mem_def.mp h] at hstop
  exact hstop

/-- A piece that the text may be cut into when `after` follows. -/
def Piece.Proper (after : List Char) : Piece → Prop
  | .layout chars | .comment chars => IsGap after chars
  | .lexeme l => l.Spelled ∧ l.EndsBefore after

/-- The rest of a line behind the sign of a comment is a gap. -/
theorem isGap_comment (sign cs : List Char) (hsign : sign = ['#'] ∨ sign = ['/', '/']) :
    IsGap (cs.dropWhile (· ≠ '\n')) (sign ++ cs.takeWhile (· ≠ '\n')) := by
  have hline : '\n' ∉ cs.takeWhile (· ≠ '\n') := fun hmem => by
    simpa using List.mem_takeWhile_imp hmem
  have hstop : ∀ c ∈ ([] ++ cs.dropWhile (· ≠ '\n')).head?, c = '\n' := fun c hc => by
    simpa using eq_false_of_mem_head?_dropWhile hc
  simpa using IsGap.comment hsign hline hstop .nil

theorem proper_of_cut {c : Char} {rest left : List Char} {piece : Piece}
    (h : cut c rest = .ok (piece, left)) : piece.Proper left := by
  -- Blanks, comments, strings, names and symbols, as `cut` looks for them.
  unfold cut at h
  split at h
  · next hlayout =>
    cases h
    refine IsGap.of_blanks (List.forall_mem_cons.mpr ⟨hlayout, ?_⟩)
    exact fun d hd => List.mem_takeWhile_imp hd
  split at h
  · next hcomment =>
    cases h
    simp only [startsComment, Bool.or_eq_true, Bool.and_eq_true, decide_eq_true_eq] at hcomment
    rcases hcomment with rfl | ⟨rfl, hslash⟩
    · exact isGap_comment ['#'] rest (.inl rfl)
    · -- The second slash of the sign is the first character behind `c`.
      obtain ⟨tail, rfl⟩ := List.head?_eq_some_iff.mp hslash
      rw [List.takeWhile_cons_of_pos (by decide), List.dropWhile_cons_of_pos (by decide)]
      exact isGap_comment ['/', '/'] tail (.inr rfl)
  split at h
  · split at h
    · next hbody =>
      cases h
      exact ⟨by simpa [Lexeme.Spelled] using stringBody_of_some hbody, trivial⟩
    · cases h
  split at h
  · next hstart =>
    cases h
    refine ⟨⟨c, _, String.toList_ofList, hstart, fun d hd => List.mem_takeWhile_imp hd⟩, ?_⟩
    exact fun d hd => eq_false_of_mem_head?_dropWhile hd
  split at h
  · cases h
    exact ⟨trivial, trivial⟩
  · cases h

/-! ## Places at which no piece starts -/

/-- No token, no blank and no comment starts at the beginning of these characters. -/
def NothingStarts (cs : List Char) : Prop :=
  (∀ l after, cs = Lexeme.chars l ++ after → ¬ l.Spelled) ∧
    ∀ gap after, cs = gap ++ after → IsGap after gap → gap = []

/-- What is not the case at a place where no piece is found. -/
theorem not_starts_of_cut {c : Char} {rest : List Char} {why : Malformation}
    (h : cut c rest = .error why) :
    ¬ isLayout c ∧ ¬ startsComment c rest ∧ ¬ (c = '\x22' ∧ stringBody rest ≠ none) ∧
      ¬ isNameStart c ∧ Symbol.ofChar? c = none := by
  unfold cut at h
  split at h
  · cases h
  next hlayout =>
  split at h
  · cases h
  next hcomment =>
  refine ⟨hlayout, hcomment, ?_⟩
  split at h
  · next hquote =>
    subst hquote
    split at h
    · cases h
    next hbody => exact ⟨fun hstring => hstring.2 hbody, by decide, rfl⟩
  next hquote =>
  split at h
  · cases h
  next hname =>
  split at h
  · cases h
  next hsymbol => exact ⟨fun hstring => hquote hstring.1, hname, hsymbol⟩

theorem nothingStarts_of_cut {c : Char} {rest : List Char} {why : Malformation}
    (h : cut c rest = .error why) : NothingStarts (c :: rest) := by
  obtain ⟨hlayout, hcomment, hstring, hname, hsymbol⟩ := not_starts_of_cut h
  constructor
  · intro l after hcs hspelled
    rcases Lexeme.starts hspelled hcs.symm with hstarts | hstarts | hstarts
    · exact hstring hstarts
    · exact hname hstarts
    · exact hstarts hsymbol
  · intro gap after hcs hgap
    by_contra hne
    rcases hgap.starts hne hcs.symm with hstarts | hstarts
    · exact hlayout hstarts
    · exact hcomment hstarts

end ContainerFlow
