/-
ContainerFlow.Proofs.Token.Filler — blanks and comments put between the
tokens of a text.

A filler is made of blanks and of comments with the line feed that ends
them (`IsFiller`).  It may stand in front of anything, also in front of
the end of the text, and it ends every name (`IsFiller.isGap`,
`IsFiller.isNameChar_head?`).  It may stand behind any gap, too: behind a
comment that is still open, the rest of its first line belongs to the
comment (`IsGap.append_filler`).

So a filler may be put immediately before a token, immediately behind one
or at the end of the text, and the text is laid out as before
(`LaidOut.fill_before`, `LaidOut.fill_behind`, `LaidOut.append_filler`).

A text that is scanned to its end is laid out as its tokens, also on
either side of each of them (`laidOut_of_scanFrom`,
`exists_laidOut_of_scanFrom`).
-/
import Mathlib
import ContainerFlow.Proofs.Token.Writing

namespace ContainerFlow

/-! ## Fillers -/

/-- Blanks, and comments that the end of a line closes. -/
inductive IsFiller : List Char → Prop where
  | nil : IsFiller []
  | blank {c : Char} {cs : List Char} (blank : c = ' ' ∨ c = '\t' ∨ c = '\r' ∨ c = '\n')
      (rest : IsFiller cs) : IsFiller (c :: cs)
  | comment {sign body cs : List Char} (sign_eq : sign = ['#'] ∨ sign = ['/', '/'])
      (line : '\n' ∉ body) (rest : IsFiller cs) : IsFiller (sign ++ body ++ '\n' :: cs)

namespace IsFiller

variable {filler after : List Char}

theorem isGap (h : IsFiller filler) (after : List Char) : IsGap after filler := by
  induction h with
  | nil => exact .nil
  | blank hblank _ ih => exact .blank hblank ih
  | comment hsign hline _ ih =>
    refine .comment hsign hline ?_ (.blank (.inr (.inr (.inr rfl))) ih)
    intro c hc
    cases hc
    rfl

/-- No name goes on in a filler. -/
theorem isNameChar_head? (h : IsFiller filler) : ∀ c ∈ filler.head?, isNameChar c = false := by
  intro c hc
  cases h with
  | nil => cases hc
  | blank hblank _ =>
    cases hc
    rcases hblank with rfl | rfl | rfl | rfl <;> decide
  | comment hsign _ _ =>
    rcases hsign with rfl | rfl <;>
    · cases hc
      decide

/-- The first line of a filler, and a filler from its end on. -/
theorem exists_line (h : IsFiller filler) :
    ∃ line rest, filler = line ++ rest ∧ '\n' ∉ line ∧ (∀ c ∈ rest.head?, c = '\n') ∧
      IsFiller rest := by
  induction h with
  | nil => exact ⟨[], [], rfl, by simp, by simp, .nil⟩
  | @blank c cs hblank hrest ih =>
    by_cases hc : c = '\n'
    · subst hc
      exact ⟨[], '\n' :: cs, rfl, by simp, by simp, .blank hblank hrest⟩
    · obtain ⟨line, rest, rfl, hline, hstop, hrest⟩ := ih
      exact ⟨c :: line, rest, rfl, by simp [hline, Ne.symm hc], hstop, hrest⟩
  | @comment sign body cs hsign hline hrest _ =>
    refine ⟨sign ++ body, '\n' :: cs, rfl, ?_, by simp, .blank (by simp) hrest⟩
    rcases hsign with rfl | rfl <;> simpa using hline

end IsFiller

/-! ## What follows -/

/-- A gap asks no more of what follows it than which character comes first. -/
theorem IsGap.of_head? {after other gap : List Char} (h : IsGap after gap)
    (hhead : other.head? = after.head?) : IsGap other gap := by
  induction h with
  | nil => exact .nil
  | blank hblank _ ih => exact .blank hblank ih
  | comment hsign hline hstop _ ih =>
    rw [List.head?_append, ← hhead, ← List.head?_append] at hstop
    exact .comment hsign hline hstop ih

theorem Lexeme.EndsBefore.of_head? {l : Lexeme} {after other : List Char} (h : l.EndsBefore after)
    (hhead : other.head? = after.head?) : l.EndsBefore other := by
  cases l with
  | name text =>
    show ∀ c ∈ other.head?, isNameChar c = false
    rw [hhead]
    exact h
  | string body => exact trivial
  | symbol s => exact trivial

/-- What ends before the text goes on ends before a filler, too. -/
theorem Lexeme.EndsBefore.filler {l : Lexeme} {filler after : List Char} (h : l.EndsBefore after)
    (hfiller : IsFiller filler) : l.EndsBefore (filler ++ after) := by
  cases filler with
  | nil => exact h
  | cons c rest => exact endsBefore_of_head? hfiller.isNameChar_head? l

/-- A filler may stand behind a gap.  If the gap is a comment that is still open, the first line of
the filler belongs to it. -/
theorem IsGap.append_filler {after gap filler : List Char} (h : IsGap after gap)
    (hfiller : IsFiller filler) : IsGap after (gap ++ filler) := by
  induction h with
  | nil => exact hfiller.isGap after
  | blank hblank _ ih => exact .blank hblank ih
  | @comment sign body cs hsign hline hstop _ ih =>
    cases cs with
    | cons c cs =>
      rw [List.append_assoc]
      exact .comment hsign hline (by simpa using hstop) ih
    | nil =>
      obtain ⟨line, rest, rfl, hline', hstop', hrest⟩ := hfiller.exists_line
      have hopen : sign ++ body ++ [] ++ (line ++ rest) = sign ++ (body ++ line) ++ rest := by simp
      rw [hopen]
      refine .comment hsign (by simp [hline, hline']) ?_ (hrest.isGap after)
      intro c hc
      cases rest with
      | nil => exact hstop c hc
      | cons d rest => exact hstop' c hc

namespace LaidOut

variable {after cs ds filler : List Char} {ls ms : List Lexeme} {l : Lexeme}

theorem of_head? {other : List Char} (h : LaidOut after cs ls) (hhead : other.head? = after.head?) :
    LaidOut other cs ls := by
  induction h with
  | done isGap => exact .done (isGap.of_head? hhead)
  | lexeme isGap spelled ends _ ih =>
    refine .lexeme (isGap.of_head? ?_) spelled (ends.of_head? ?_) ih
    · simp only [List.head?_append, hhead]
    · simp only [List.head?_append, hhead]

/-- One layout behind another. -/
theorem append (h : LaidOut (ds ++ after) cs ls) (hds : LaidOut after ds ms) :
    LaidOut after (cs ++ ds) (ls ++ ms) := by
  induction h with
  | done isGap => exact hds.of_gap isGap
  | lexeme isGap spelled ends _ ih =>
    rw [List.append_assoc, List.append_assoc]
    exact .lexeme (by simpa using isGap) spelled (by simpa using ends) ih

/-- A filler at the end. -/
theorem append_filler (h : LaidOut after cs ls) (hfiller : IsFiller filler) :
    LaidOut after (cs ++ filler) ls := by
  induction h with
  | done isGap => exact .done (isGap.append_filler hfiller)
  | @lexeme gap cs l ls isGap spelled ends rest ih =>
    rw [List.append_assoc, List.append_assoc]
    refine .lexeme (isGap.of_head? ?_) spelled ?_ ih
    · obtain ⟨c, rest, hc⟩ := List.exists_cons_of_ne_nil (Lexeme.chars_ne_nil_of_spelled spelled)
      simp [hc]
    · cases cs with
      | nil => exact ends.filler hfiller
      | cons c cs => exact ends.of_head? rfl

/-- A filler immediately before a lexeme. -/
theorem fill_before (hcs : LaidOut (l.chars ++ ds) cs ls) (spelled : l.Spelled)
    (ends : l.EndsBefore ds) (hds : LaidOut [] ds ms) (hfiller : IsFiller filler) :
    LaidOut [] (cs ++ filler ++ (l.chars ++ ds)) (ls ++ l :: ms) := by
  have hl : LaidOut [] (l.chars ++ ds) (l :: ms) := .cons spelled (by simpa using ends) hds
  exact append (by simpa using hcs.append_filler hfiller) hl

/-- A filler immediately behind a lexeme. -/
theorem fill_behind (hcs : LaidOut (l.chars ++ ds) cs ls) (spelled : l.Spelled)
    (ends : l.EndsBefore ds) (hds : LaidOut [] ds ms) (hfiller : IsFiller filler) :
    LaidOut [] (cs ++ (l.chars ++ (filler ++ ds))) (ls ++ l :: ms) := by
  have hl : LaidOut [] (l.chars ++ (filler ++ ds)) (l :: ms) :=
    .cons spelled (by simpa using ends.filler hfiller) (hds.of_gap (hfiller.isGap _))
  refine append (hcs.of_head? ?_) hl
  obtain ⟨c, rest, hc⟩ := List.exists_cons_of_ne_nil (Lexeme.chars_ne_nil_of_spelled spelled)
  simp [hc]

end LaidOut

/-! ## Scanned texts -/

/-- A scan that comes to the end finds its first piece, and then the rest of the tokens. -/
theorem exists_later_of_cut {p finish : Position} {c : Char} {rest left : List Char} {piece : Piece}
    {tokens : List Token} (hcut : cut c rest = .ok (piece, left))
    (h : scanFrom p (c :: rest) = ⟨tokens, .finished finish⟩) :
    ∃ later, tokens = piece.tokens p ++ later ∧
      scanFrom (p.after piece.chars) left = ⟨later, .finished finish⟩ := by
  rw [scanFrom_of_cut hcut] at h
  obtain ⟨htokens, hending⟩ := Scan.mk.inj h
  exact ⟨_, htokens.symm, by rw [← hending]⟩

/-- A scan that comes to the end can cut wherever it stands. -/
theorem not_finished_of_cut_error {p finish : Position} {c : Char} {rest : List Char}
    {why : Malformation} {tokens : List Token} (hcut : cut c rest = .error why) :
    scanFrom p (c :: rest) ≠ ⟨tokens, .finished finish⟩ := by
  rw [scanFrom]
  split
  · intro h
    cases h
  · next hok => simp [hcut] at hok

theorem laidOut_of_scanFrom {p finish : Position} {cs : List Char} {tokens : List Token}
    (h : scanFrom p cs = ⟨tokens, .finished finish⟩) :
    LaidOut [] cs (tokens.map (·.lexeme)) := by
  induction p, cs using scanFrom.induct generalizing tokens with
  | case1 p =>
    rw [scanFrom] at h
    cases h
    exact .done .nil
  | case2 p c rest why hcut => exact absurd h (not_finished_of_cut_error hcut)
  | case3 p c rest piece left hcut ih =>
    obtain ⟨later, rfl, hlater⟩ := exists_later_of_cut hcut h
    rw [← chars_append_of_cut hcut]
    have hproper := proper_of_cut hcut
    cases piece with
    | lexeme l => exact .cons hproper.1 (by simpa using hproper.2) (ih hlater)
    | layout chars | comment chars =>
      have hgap : IsGap (left ++ []) chars := by
        rw [List.append_nil]
        exact hproper
      exact (ih hlater).of_gap hgap

/-- On either side of a token that is found, the text is laid out as the tokens on that side. -/
theorem exists_laidOut_of_scanFrom {p finish : Position} {cs : List Char}
    {tokens before after : List Token} {t : Token}
    (h : scanFrom p cs = ⟨tokens, .finished finish⟩) (htokens : tokens = before ++ t :: after) :
    ∃ pre post, cs = pre ++ (t.lexeme.chars ++ post) ∧ t.position = p.after pre ∧
      t.lexeme.Spelled ∧ t.lexeme.EndsBefore post ∧
      LaidOut (t.lexeme.chars ++ post) pre (before.map (·.lexeme)) ∧
      LaidOut [] post (after.map (·.lexeme)) := by
  induction p, cs using scanFrom.induct generalizing tokens before with
  | case1 p =>
    rw [scanFrom] at h
    cases h
    simp at htokens
  | case2 p c rest why hcut => exact absurd h (not_finished_of_cut_error hcut)
  | case3 p c rest piece left hcut ih =>
    obtain ⟨later, rfl, hlater⟩ := exists_later_of_cut hcut h
    have hproper := proper_of_cut hcut
    rw [← chars_append_of_cut hcut]
    cases piece with
    | layout chars | comment chars =>
      obtain ⟨pre, post, rfl, hposition, hspelled, hends, hpre, hpost⟩ := ih hlater htokens
      refine ⟨chars ++ pre, post, by simp [Piece.chars], ?_, hspelled, hends, hpre.of_gap hproper,
        hpost⟩
      rw [hposition, Position.after_append]
      rfl
    | lexeme l =>
      cases before with
      | nil =>
        obtain ⟨rfl, rfl⟩ := List.cons.inj htokens
        exact ⟨[], left, rfl, rfl, hproper.1, hproper.2, .done .nil, laidOut_of_scanFrom hlater⟩
      | cons first before =>
        obtain ⟨rfl, hrest⟩ := List.cons.inj htokens
        obtain ⟨pre, post, rfl, hposition, hspelled, hends, hpre, hpost⟩ := ih hlater hrest
        refine ⟨l.chars ++ pre, post, by simp [Piece.chars], ?_, hspelled, hends,
          .cons hproper.1 hproper.2 hpre, hpost⟩
        rw [hposition, Position.after_append]
        rfl

end ContainerFlow
