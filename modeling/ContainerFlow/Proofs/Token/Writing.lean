/-
ContainerFlow.Proofs.Token.Writing — lexemes, written and scanned again.

A text is laid out as a row of lexemes when they stand in it one behind
the other, with gaps before, between and behind them (`LaidOut`).  A scan
passes over gaps and stops at nothing else (`scanFrom_gap`), so what it
finds in such a text is these lexemes (`scanFrom_of_laidOut`).

Lexemes that are spelled as they have to be are the lexemes of some text:
the one in which each of them has a blank behind it (`scanFrom_written`).
The blank is what ends a name; strings and symbols end by themselves.
-/
import Mathlib
import ContainerFlow.Proofs.Token.Spelling

namespace ContainerFlow

namespace Lexeme

/-- Lexemes, each with a blank behind it. -/
def written (ls : List Lexeme) : List Char := ls.flatMap fun l => l.chars ++ [' ']

theorem written_cons (l : Lexeme) (ls : List Lexeme) :
    written (l :: ls) = l.chars ++ ' ' :: written ls := by
  simp [written]

/-- A lexeme starts neither with a blank nor with the sign of a comment. -/
theorem not_gap_of_spelled {l : Lexeme} {after rest : List Char} {c : Char} (h : l.Spelled)
    (hcs : l.chars ++ after = c :: rest) : isLayout c = false ∧ startsComment c rest = false := by
  have hstarts := starts h hcs
  have hne : ∀ d ∈ [' ', '\t', '\r', '\n', '#', '/'], c ≠ d := by
    intro d hd heq
    have hnone : d ≠ '\x22' ∧ isNameStart d = false ∧ Symbol.ofChar? d = none := by
      fin_cases hd <;> decide
    rcases heq ▸ hstarts with ⟨hquote, -⟩ | hname | hsymbol
    · exact hnone.1 hquote
    · rw [hnone.2.1] at hname
      cases hname
    · exact hsymbol hnone.2.2
  simp only [List.forall_mem_cons] at hne
  simp [isLayout, startsComment, hne]

end Lexeme

/-! ## One lexeme -/

/-- Characters that satisfy `p` are all that is taken when the next one does not. -/
theorem takeWhile_dropWhile_append {p : Char → Bool} {cs after : List Char}
    (hcs : ∀ c ∈ cs, p c = true) (hafter : ∀ c ∈ after.head?, p c = false) :
    (cs ++ after).takeWhile p = cs ∧ (cs ++ after).dropWhile p = after := by
  rw [List.takeWhile_append_of_pos hcs, List.dropWhile_append_of_pos hcs]
  cases after with
  | nil => simp
  | cons c rest =>
    have hc : p c = false := hafter c rfl
    simp [hc]

/-- A lexeme that is spelled as it has to be, and does not go on behind its end, is the first
piece. -/
theorem cut_of_spelled {l : Lexeme} {after rest : List Char} {c : Char} (h : l.Spelled)
    (hends : l.EndsBefore after) (hcs : l.chars ++ after = c :: rest) :
    cut c rest = .ok (.lexeme l, after) := by
  obtain ⟨hlayout, hcomment⟩ := Lexeme.not_gap_of_spelled h hcs
  rw [cut, hlayout, hcomment, if_neg (by decide), if_neg (by decide)]
  cases l with
  | string body =>
    simp only [Lexeme.chars, List.cons_append, List.append_assoc, List.cons.injEq] at hcs
    obtain ⟨rfl, rfl⟩ := hcs
    have hbody := StringBody.some_append h after
    simp [hbody]
  | name text =>
    obtain ⟨d, tail, htext, hd, htail⟩ := h
    simp only [Lexeme.chars, htext, List.cons_append, List.cons.injEq] at hcs
    obtain ⟨rfl, rfl⟩ := hcs
    have hquote : d ≠ '\x22' := by
      rintro rfl
      exact absurd hd (by decide)
    obtain ⟨htake, hdrop⟩ := takeWhile_dropWhile_append htail hends
    rw [if_neg hquote, if_pos hd, htake, hdrop, ← htext, String.ofList_toList]
  | symbol s =>
    simp only [Lexeme.chars, List.cons_append, List.nil_append, List.cons.injEq] at hcs
    obtain ⟨rfl, rfl⟩ := hcs
    cases s <;> rfl

theorem scanFrom_of_cut {c : Char} {rest left : List Char} {piece : Piece}
    (h : cut c rest = .ok (piece, left)) (p : Position) :
    scanFrom p (c :: rest) =
      ⟨piece.tokens p ++ (scanFrom (p.after piece.chars) left).tokens,
        (scanFrom (p.after piece.chars) left).ending⟩ := by
  rw [scanFrom]
  split
  · next hcut =>
    rw [h] at hcut
    cases hcut
  · next hcut =>
    rw [h] at hcut
    cases hcut
    rfl

/-- The lexeme is found, and the scan goes on behind it. -/
theorem scanFrom_lexeme {l : Lexeme} {after : List Char} (h : l.Spelled)
    (hends : l.EndsBefore after) (p : Position) :
    scanFrom p (l.chars ++ after) =
      ⟨⟨l, p⟩ :: (scanFrom (p.after l.chars) after).tokens,
        (scanFrom (p.after l.chars) after).ending⟩ := by
  obtain ⟨c, rest, hc⟩ := List.exists_cons_of_ne_nil (Lexeme.chars_ne_nil_of_spelled h)
  have hchars : l.chars ++ after = c :: (rest ++ after) := by rw [hc, List.cons_append]
  rw [hchars, scanFrom_of_cut (cut_of_spelled h hends hchars)]
  rfl

/-! ## Gaps -/

/-- Blanks are passed over one by one, although they are cut off all at once. -/
theorem scanFrom_blank {c : Char} (hc : isLayout c) (p : Position) (cs : List Char) :
    scanFrom p (c :: cs) = scanFrom (p.advance c) cs := by
  have hcut (d : Char) (ds : List Char) (hd : isLayout d) :
      cut d ds = .ok (.layout (d :: ds.takeWhile isLayout), ds.dropWhile isLayout) := by
    rw [cut, if_pos hd]
  rw [scanFrom_of_cut (hcut c cs hc)]
  cases cs with
  | nil => rfl
  | cons d rest =>
    by_cases hd : isLayout d
    · rw [scanFrom_of_cut (hcut d rest hd), List.takeWhile_cons_of_pos hd,
        List.dropWhile_cons_of_pos hd]
      rfl
    · rw [List.takeWhile_cons_of_neg hd, List.dropWhile_cons_of_neg hd]
      rfl

/-- A comment is passed over up to the end of its line. -/
theorem scanFrom_comment {sign body : List Char} (hsign : sign = ['#'] ∨ sign = ['/', '/'])
    (hline : '\n' ∉ body) {cs : List Char} (hstop : ∀ c ∈ cs.head?, c = '\n') (p : Position) :
    scanFrom p (sign ++ body ++ cs) = scanFrom (p.after (sign ++ body)) cs := by
  have hbody : ∀ c ∈ body, decide (c ≠ '\n') = true := fun c hc =>
    decide_eq_true fun heq => hline (heq ▸ hc)
  have hcs : ∀ c ∈ cs.head?, decide (c ≠ '\n') = false := fun c hc =>
    decide_eq_false (not_not_intro (hstop c hc))
  have hcut {c : Char} (line : List Char) (hc : isLayout c = false)
      (hstarts : startsComment c (line ++ cs) = true)
      (hmem : ∀ d ∈ line, decide (d ≠ '\n') = true) :
      cut c (line ++ cs) = .ok (.comment (c :: line), cs) := by
    obtain ⟨htake, hdrop⟩ := takeWhile_dropWhile_append hmem hcs
    rw [cut, hc, hstarts, htake, hdrop]
    rfl
  rcases hsign with rfl | rfl
  · exact scanFrom_of_cut (hcut body rfl rfl hbody) p
  · exact scanFrom_of_cut
      (hcut ('/' :: body) rfl rfl (List.forall_mem_cons.mpr ⟨rfl, hbody⟩)) p

/-- A gap is passed over. -/
theorem scanFrom_gap {gap after : List Char} (h : IsGap after gap) (p : Position) :
    scanFrom p (gap ++ after) = scanFrom (p.after gap) after := by
  induction h generalizing p with
  | nil => rfl
  | blank hblank _ ih => rw [List.cons_append, scanFrom_blank (isLayout_iff.mpr hblank), ih]; rfl
  | comment hsign hline hstop _ ih =>
    rw [List.append_assoc, scanFrom_comment hsign hline hstop, ih, ← Position.after_append]

/-! ## Layouts -/

/-- With `after` behind them, the characters are these lexemes, one behind the other, and gaps
before, between and behind them. -/
inductive LaidOut (after : List Char) : List Char → List Lexeme → Prop where
  | done {gap : List Char} (isGap : IsGap after gap) : LaidOut after gap []
  | lexeme {gap cs : List Char} {l : Lexeme} {ls : List Lexeme}
      (isGap : IsGap (l.chars ++ cs ++ after) gap) (spelled : l.Spelled)
      (ends : l.EndsBefore (cs ++ after)) (rest : LaidOut after cs ls) :
      LaidOut after (gap ++ (l.chars ++ cs)) (l :: ls)

namespace LaidOut

variable {after cs : List Char} {ls : List Lexeme}

/-- What is laid out may have one more gap in front. -/
theorem of_gap {gap : List Char} (hgap : IsGap (cs ++ after) gap) (h : LaidOut after cs ls) :
    LaidOut after (gap ++ cs) ls := by
  cases h with
  | done isGap => exact .done (hgap.append isGap)
  | lexeme isGap spelled ends rest =>
    rw [← List.append_assoc]
    exact .lexeme (.append (by simpa using hgap) isGap) spelled ends rest

/-- One more lexeme in front. -/
theorem cons {l : Lexeme} (spelled : l.Spelled) (ends : l.EndsBefore (cs ++ after))
    (h : LaidOut after cs ls) : LaidOut after (l.chars ++ cs) (l :: ls) :=
  .lexeme .nil spelled ends h

end LaidOut

/-- The lexemes that a text is laid out as are found in it, and nothing else. -/
theorem scanFrom_of_laidOut {cs : List Char} {ls : List Lexeme} (h : LaidOut [] cs ls)
    (p : Position) :
    ∃ tokens finish, scanFrom p cs = ⟨tokens, .finished finish⟩ ∧ tokens.map (·.lexeme) = ls := by
  induction h generalizing p with
  | @done gap isGap =>
    have hscan := scanFrom_gap isGap p
    rw [List.append_nil, scanFrom] at hscan
    exact ⟨[], _, hscan, rfl⟩
  | @lexeme gap cs l ls isGap spelled ends _ ih =>
    rw [List.append_nil] at isGap ends
    obtain ⟨tokens, finish, hscan, hlexemes⟩ := ih ((p.after gap).after l.chars)
    refine ⟨⟨l, p.after gap⟩ :: tokens, finish, ?_, by rw [List.map_cons, hlexemes]⟩
    rw [scanFrom_gap isGap, scanFrom_lexeme spelled ends, hscan]

/-! ## Rows of lexemes -/

/-- A character that names do not have ends a lexeme. -/
theorem Lexeme.endsBefore_of_head? {after : List Char}
    (h : ∀ c ∈ after.head?, isNameChar c = false) (l : Lexeme) : l.EndsBefore after := by
  cases l with
  | name text => exact h
  | string body => exact trivial
  | symbol s => exact trivial

/-- A blank ends a lexeme, whatever follows. -/
theorem Lexeme.endsBefore_blank {c : Char} (hc : isLayout c) (l : Lexeme) (after : List Char) :
    l.EndsBefore (c :: after) := by
  refine endsBefore_of_head? (fun d hd => ?_) l
  cases hd
  rcases isLayout_iff.mp hc with rfl | rfl | rfl | rfl <;> decide

theorem Lexeme.laidOut_written {ls : List Lexeme} (h : ∀ l ∈ ls, l.Spelled) :
    LaidOut [] (written ls) ls := by
  induction ls with
  | nil => exact .done .nil
  | cons l ls ih =>
    obtain ⟨hl, hls⟩ := List.forall_mem_cons.mp h
    rw [written_cons]
    exact .cons hl (endsBefore_blank rfl l _) ((ih hls).of_gap (.blank (.inl rfl) .nil))

/-- Written lexemes are found again. -/
theorem scanFrom_written {ls : List Lexeme} (h : ∀ l ∈ ls, l.Spelled) (p : Position) :
    ∃ tokens finish, scanFrom p (Lexeme.written ls) = ⟨tokens, .finished finish⟩ ∧
      tokens.map (·.lexeme) = ls :=
  scanFrom_of_laidOut (Lexeme.laidOut_written h) p

/-- Lexemes that are spelled as they have to be are those of a text. -/
theorem exists_scan_of_spelled {ls : List Lexeme} (h : ∀ l ∈ ls, l.Spelled) :
    ∃ text tokens finish, scan text = ⟨tokens, .finished finish⟩ ∧
      tokens.map (·.lexeme) = ls := by
  obtain ⟨tokens, finish, hscan, hlexemes⟩ := scanFrom_written h .start
  refine ⟨String.ofList (Lexeme.written ls), tokens, finish, ?_, hlexemes⟩
  rw [scan, String.toList_ofList, hscan]

end ContainerFlow
