/-
ContainerFlow.Proofs.Token.Cover — the tokens of a text in the text.

A scan loses nothing: the text is its tokens, one behind the other, and
gaps before, between and behind them (`Covered`).  A scan that stops does
so at a place where no token and no part of a gap starts, and covers the
text up to there.  Every position that it gives is that of an offset in
the text (`Position.ofOffset`), although none is ever counted from the
beginning of the text.

The main statement is `scan_covers`.
-/
import Mathlib.Data.List.DropRight
import ContainerFlow.Proofs.Token.Spelling

namespace ContainerFlow

/-! ## Positions and offsets -/

/-- The offset at which the last of the lines of `before` starts: behind the last line feed. -/
def lineStart (before : List Char) : Nat := (before.rdropWhile (· ≠ '\n')).length

theorem lineStart_concat (before : List Char) (c : Char) :
    lineStart (before ++ [c]) = if c = '\n' then before.length + 1 else lineStart before := by
  rw [lineStart, List.rdropWhile_concat]
  by_cases hc : c = '\n' <;> simp [hc, lineStart]

namespace Position

/-- The position of the place at `offset` in the text `cs`: lines are counted by the line feeds
before the place, and columns from the start of its line. -/
def ofOffset (cs : List Char) (offset : Nat) : Position :=
  ⟨1 + (cs.take offset).count '\n', offset - lineStart (cs.take offset) + 1⟩

theorem after_start (before : List Char) :
    start.after before = ⟨1 + before.count '\n', before.length - lineStart before + 1⟩ := by
  induction before using List.reverseRecOn with
  | nil => rfl
  | append_singleton before c ih =>
    rw [after_append, ih, after_cons, after_nil, advance, lineStart_concat]
    by_cases hc : c = '\n'
    · simp [hc]
      omega
    · simp [hc]
      omega

theorem ofOffset_append (before rest : List Char) :
    ofOffset (before ++ rest) before.length = start.after before := by
  rw [after_start, ofOffset, List.take_left]

end Position

/-! ## What a scan covers -/

/-- Between the offsets `start` and `stop` of the text `cs` there is a gap. -/
def GapBetween (cs : List Char) (start stop : Nat) : Prop :=
  ∃ before gap after, cs = before ++ gap ++ after ∧ start = before.length ∧
    stop = start + gap.length ∧ IsGap after gap

/-- The token stands in the text `cs` at `offset`, and its position says so. -/
def Token.StandsAt (cs : List Char) (offset : Nat) (t : Token) : Prop :=
  ∃ before after, cs = before ++ t.lexeme.chars ++ after ∧ offset = before.length ∧
    t.lexeme.Spelled ∧ t.lexeme.EndsBefore after ∧ t.position = .ofOffset cs offset

/-- From the offset `start` on and up to `stop`, the text `cs` is made up of the tokens, each at its
offset, and of gaps before, between and behind them. -/
inductive Covered (cs : List Char) (stop : Nat) : Nat → List Nat → List Token → Prop where
  | done {start : Nat} (gap : GapBetween cs start stop) : Covered cs stop start [] []
  | token {start offset : Nat} {offsets : List Nat} {t : Token} {tokens : List Token}
      (gap : GapBetween cs start offset) (stands : t.StandsAt cs offset)
      (rest : Covered cs stop (offset + t.lexeme.chars.length) offsets tokens) :
      Covered cs stop start (offset :: offsets) (t :: tokens)

namespace Covered

variable {cs : List Char} {stop start : Nat} {offsets : List Nat} {tokens : List Token}

theorem spelled (h : Covered cs stop start offsets tokens) :
    ∀ t ∈ tokens, t.lexeme.Spelled := by
  induction h with
  | done _ => simp
  | token _ stands _ ih =>
    obtain ⟨_, _, -, -, hspelled, -⟩ := stands
    exact List.forall_mem_cons.mpr ⟨hspelled, ih⟩

/-- No offset, and no stop, comes before the start. -/
theorem start_le (h : Covered cs stop start offsets tokens) :
    ∀ offset ∈ offsets ++ [stop], start ≤ offset := by
  induction h with
  | done gap =>
    obtain ⟨_, _, _, -, -, hstop, -⟩ := gap
    simp [hstop]
  | token gap _ _ ih =>
    obtain ⟨_, _, _, -, -, hoffset, -⟩ := gap
    refine List.forall_mem_cons.mpr ⟨by omega, fun offset hmem => ?_⟩
    have := ih offset hmem
    omega

/-- Every token starts behind the start of the one before, because no token is empty. -/
theorem increasing (h : Covered cs stop start offsets tokens) :
    (offsets ++ [stop]).Pairwise (· < ·) := by
  induction h with
  | done _ => simp
  | token _ stands rest ih =>
    obtain ⟨_, _, -, -, hspelled, -⟩ := stands
    have hpos := List.length_pos_iff.mpr (Lexeme.chars_ne_nil_of_spelled hspelled)
    refine List.pairwise_cons.mpr ⟨fun offset hmem => ?_, ih⟩
    have := rest.start_le offset hmem
    omega

end Covered

/-- What the end of a scan says about the place `stop` that it has come to. -/
def ScanEnd.StandsAt (cs : List Char) (stop : Nat) : ScanEnd → Prop
  | .finished position => stop = cs.length ∧ position = .ofOffset cs stop
  | .stopped _ position =>
    stop < cs.length ∧ position = .ofOffset cs stop ∧ NothingStarts (cs.drop stop)

theorem gapBetween_append (before : List Char) {gap after : List Char} (hgap : IsGap after gap) :
    GapBetween (before ++ gap ++ after) before.length (before ++ gap).length :=
  ⟨before, gap, after, rfl, rfl, List.length_append, hgap⟩

/-- A scan that has come to the characters `cs`, with a gap so far behind `before`, covers all that
comes behind `before`. -/
theorem scanFrom_covered (position : Position) (cs before gap : List Char)
    (hposition : position = Position.start.after (before ++ gap)) (hgap : IsGap cs gap) :
    ∃ offsets stop,
      Covered (before ++ gap ++ cs) stop before.length offsets (scanFrom position cs).tokens ∧
      (scanFrom position cs).ending.StandsAt (before ++ gap ++ cs) stop := by
  fun_induction scanFrom position cs generalizing before gap with
  | case1 position =>
    refine ⟨[], _, .done (gapBetween_append before hgap), by simp, ?_⟩
    rw [hposition, Position.ofOffset_append]
  | case2 position c rest why hcut =>
    refine ⟨[], _, .done (gapBetween_append before hgap), by simp, ?_, ?_⟩
    · rw [hposition, Position.ofOffset_append]
    · rw [List.drop_left]
      exact nothingStarts_of_cut hcut
  | case3 position c rest piece left hcut later ih =>
    have hproper := proper_of_cut hcut
    have hchars := chars_append_of_cut hcut
    have hafter : position.after piece.chars
        = Position.start.after (before ++ gap ++ piece.chars) := by
      rw [hposition, ← Position.after_append]
    cases piece with
    | lexeme l =>
      -- The lexeme ends the gap, and the next gap starts behind it.
      obtain ⟨hspelled, hends⟩ := hproper
      obtain ⟨offsets, stop, hcovered, hending⟩ :=
        ih (before ++ gap ++ l.chars) [] (by simpa [Piece.chars] using hafter) .nil
      have hcs : before ++ gap ++ l.chars ++ [] ++ left = before ++ gap ++ (c :: rest) := by
        rw [← hchars, List.append_nil, List.append_assoc _ l.chars, Piece.chars]
      rw [hcs] at hcovered hending
      have hstands : Token.StandsAt (before ++ gap ++ (c :: rest)) (before ++ gap).length
          ⟨l, position⟩ := by
        refine ⟨before ++ gap, left, by rw [← hcs, List.append_nil], rfl, hspelled, hends, ?_⟩
        rw [Position.ofOffset_append, hposition]
      rw [List.length_append] at hcovered
      exact ⟨_, stop, .token (gapBetween_append before hgap) hstands hcovered, hending⟩
    | layout chars | comment chars =>
      -- The gap grows.
      rw [← hchars] at hgap ⊢
      have hstep := ih before (gap ++ chars) (by simpa [Piece.chars] using hafter)
        (hgap.append hproper)
      simpa [later, Piece.chars, Piece.tokens] using hstep

theorem exists_covered (text : String) :
    ∃ offsets stop, Covered text.toList stop 0 offsets (scan text).tokens ∧
      (scan text).ending.StandsAt text.toList stop :=
  scanFrom_covered .start text.toList [] [] rfl .nil

/-- The tokens of a text are written as they have to be. -/
theorem spelled_of_mem_scan (text : String) : ∀ t ∈ (scan text).tokens, t.lexeme.Spelled := by
  obtain ⟨_, _, hcovered, -⟩ := exists_covered text
  exact hcovered.spelled

/-! ## Main result -/

/-- **A scan loses nothing and locates everything**: the tokens stand one behind the other in the
text, with gaps between them, at the positions that they have.  They cover the whole text, or the
text up to a place at which neither a token nor a part of a gap starts. -/
theorem scan_covers (text : String) :
    ∃ offsets stop, (offsets ++ [stop]).Pairwise (· < ·) ∧
      Covered text.toList stop 0 offsets (scan text).tokens ∧
      (scan text).ending.StandsAt text.toList stop := by
  obtain ⟨offsets, stop, hcovered, hending⟩ := exists_covered text
  exact ⟨offsets, stop, hcovered.increasing, hcovered, hending⟩

/-- Two slashes do not start a comment inside a string, and a quote does not start a string inside
a comment. -/
example : scan "a // \"\n = \"//\\\"\"" =
    ⟨[⟨.name "a", ⟨1, 1⟩⟩, ⟨.symbol .equals, ⟨2, 2⟩⟩, ⟨.string "//\\\"", ⟨2, 4⟩⟩],
      .finished ⟨2, 10⟩⟩ := by
  cbv

end ContainerFlow
