/-
ContainerFlow.Proofs.Culprit.Text — where a text stops being a workflow
file.

`MalformedAt text why position` is that the text is no workflow file and
that what it is refused for stands at `position`: a character with which
neither a token nor a part of a gap starts, behind nothing but tokens and
gaps; a token with which no file goes on, although one could before it;
or the end of the text, when it comes too early.  A position is that of
one offset of the text only (`Position.ofOffset_inj`), so there is no
doubt about which character or token is meant.

The main statement is `malformedAt_of_ofText`.
-/
import Mathlib
import ContainerFlow.Proofs.Block.Awaiting
import ContainerFlow.Proofs.Block.Grammar
import ContainerFlow.Proofs.Token.Cover

namespace ContainerFlow

/-! ## Positions -/

namespace Position

/-- The first position comes before the second: on an earlier line, or further left. -/
def Before (p q : Position) : Prop := p.line < q.line ∨ (p.line = q.line ∧ p.column < q.column)

theorem Before.trans {p q r : Position} (hpq : p.Before q) (hqr : q.Before r) : p.Before r := by
  unfold Before at *
  omega

theorem before_advance (p : Position) (c : Char) : p.Before (p.advance c) := by
  unfold Before advance
  split <;> simp

/-- Text moves a position on. -/
theorem before_after (p : Position) {cs : List Char} (h : cs ≠ []) : p.Before (p.after cs) := by
  induction cs generalizing p with
  | nil => exact absurd rfl h
  | cons c cs ih =>
    rw [after_cons]
    cases cs with
    | nil => exact p.before_advance c
    | cons d cs => exact (p.before_advance c).trans (ih _ (List.cons_ne_nil d cs))

theorem ofOffset_before {cs : List Char} {i j : Nat} (hij : i < j) (hj : j ≤ cs.length) :
    (ofOffset cs i).Before (ofOffset cs j) := by
  have hoffset {k : Nat} (hk : k ≤ cs.length) : ofOffset cs k = start.after (cs.take k) := by
    have happend := ofOffset_append (cs.take k) (cs.drop k)
    rwa [List.take_append_drop, List.length_take_of_le hk] at happend
  have htake : cs.take j = cs.take i ++ (cs.drop i).take (j - i) := by
    rw [← List.take_add, Nat.add_sub_cancel' hij.le]
  rw [hoffset hj, hoffset (hij.le.trans hj), htake, after_append]
  refine before_after _ (List.ne_nil_of_length_pos ?_)
  rw [List.length_take, List.length_drop]
  omega

/-- Two places of a text have two positions. -/
theorem ofOffset_inj {cs : List Char} {i j : Nat} (hi : i ≤ cs.length) (hj : j ≤ cs.length) :
    ofOffset cs i = ofOffset cs j ↔ i = j := by
  refine ⟨fun h => ?_, fun h => h ▸ rfl⟩
  have hirrefl (p : Position) : ¬ p.Before p := by simp [Before]
  rcases Nat.lt_trichotomy i j with hlt | heq | hgt
  · exact absurd (h ▸ ofOffset_before hlt hj) (hirrefl _)
  · exact heq
  · exact absurd (h ▸ ofOffset_before hgt hi) (hirrefl _)

end Position

/-! ## Characters -/

/-- What is said of a character with which nothing starts: a quote opens a string that does not
end, and any other is not expected. -/
def Malformation.OfChar (c : Char) (why : Malformation) : Prop :=
  (c = '\x22' ∧ why = .unterminatedString) ∨ (c ≠ '\x22' ∧ why = .unexpectedCharacter c)

theorem ofChar_of_cut {c : Char} {rest : List Char} {why : Malformation}
    (h : cut c rest = .error why) : why.OfChar c := by
  unfold cut at h
  split at h
  · cases h
  split at h
  · cases h
  split at h
  · next hquote =>
    split at h <;> cases h
    exact .inl ⟨hquote, rfl⟩
  split at h
  · cases h
  next hquote _ =>
    split at h <;> cases h
    exact .inr ⟨hquote, rfl⟩

/-- A scan that stops names the character at which it does. -/
theorem ofChar_of_scanFrom (position : Position) (cs before : List Char)
    (hposition : position = Position.start.after before) {why : Malformation} {p : Position}
    (h : (scanFrom position cs).ending = .stopped why p) :
    ∃ offset c, (before ++ cs)[offset]? = some c ∧ p = .ofOffset (before ++ cs) offset ∧
      why.OfChar c := by
  fun_induction scanFrom position cs generalizing before with
  | case1 => cases h
  | case2 position c rest why hcut =>
    cases h
    refine ⟨before.length, c, by simp, ?_, ofChar_of_cut hcut⟩
    rw [Position.ofOffset_append, hposition]
  | case3 position c rest piece left hcut later ih =>
    have hafter : position.after piece.chars = Position.start.after (before ++ piece.chars) := by
      rw [hposition, Position.after_append]
    obtain ⟨offset, d, hget, hp, hwhy⟩ := ih (before ++ piece.chars) hafter h
    rw [List.append_assoc, chars_append_of_cut hcut] at hget hp
    exact ⟨offset, d, hget, hp, hwhy⟩

/-! ## Tokens -/

namespace Covered

variable {cs : List Char} {stop start : Nat} {offsets : List Nat} {tokens : List Token}

/-- Each of the tokens stands somewhere in the text. -/
theorem exists_standsAt (h : Covered cs stop start offsets tokens) {t : Token} (ht : t ∈ tokens) :
    ∃ offset, t.StandsAt cs offset := by
  induction h with
  | done _ => cases ht
  | token _ stands _ ih =>
    rcases List.mem_cons.mp ht with rfl | ht
    · exact ⟨_, stands⟩
    · exact ih ht

end Covered

theorem exists_standsAt_of_mem_scan {text : String} {t : Token} (ht : t ∈ (scan text).tokens) :
    ∃ offset, t.StandsAt text.toList offset := by
  obtain ⟨_, _, hcovered, -⟩ := exists_covered text
  exact hcovered.exists_standsAt ht

/-! ## Files -/

/-- Tokens that lead from one block to another write a file. -/
theorem exists_writesFile_iff {tokens : List Token} :
    (∃ blocks, WritesFile tokens blocks) ↔
      Awaiting.after .block (lexemes tokens) = some .block := by
  rw [← readBlocks_isOk_iff]
  exact exists_congr fun _ => readBlocks_eq_ok_iff.symm

/-- Whatever is waited for, some tokens finish the file. -/
theorem exists_writesFile_of_after {used : List Token} {stop : Awaiting}
    (h : Awaiting.after .block (lexemes used) = some stop) :
    ∃ more blocks, WritesFile (used ++ more) blocks := by
  refine ⟨stop.closing.map fun l => ⟨l, .start⟩, exists_writesFile_iff.mpr ?_⟩
  have hclosing : lexemes (stop.closing.map fun l => ⟨l, .start⟩) = stop.closing := by
    simp [lexemes, Function.comp_def]
  rw [lexemes, List.map_append, Awaiting.after_append]
  show (Awaiting.after .block (lexemes used)).bind (·.after (lexemes _)) = _
  rw [h, hclosing]
  exact stop.after_closing

/-- Where a text stops being a workflow file, and why. -/
inductive MalformedAt (text : String) : Malformation → Position → Prop where
  /-- At a character with which nothing starts, behind nothing but tokens and gaps. -/
  | character {why : Malformation} {offsets : List Nat} {offset : Nat} {c : Char}
      (covered : Covered text.toList offset 0 offsets (scan text).tokens)
      (here : text.toList[offset]? = some c) (nothing : NothingStarts (text.toList.drop offset))
      (named : why.OfChar c) :
      MalformedAt text why (.ofOffset text.toList offset)
  /-- At a token with which no file goes on, behind tokens with which one could. -/
  | token {used rest : List Token} {t : Token} {finish : Position} {wanted : Expectation}
      {offset : Nat} (scanned : scan text = ⟨used ++ t :: rest, .finished finish⟩)
      (viable : ∃ more blocks, WritesFile (used ++ more) blocks)
      (refused : ∀ more blocks, ¬ WritesFile (used ++ t :: more) blocks)
      (stands : t.StandsAt text.toList offset) :
      MalformedAt text (.unexpectedLexeme wanted (some t.lexeme)) t.position
  /-- At the end, behind tokens with which a file could go on but not end. -/
  | finish {tokens : List Token} {finish : Position} {wanted : Expectation}
      (scanned : scan text = ⟨tokens, .finished finish⟩)
      (viable : ∃ more blocks, WritesFile (tokens ++ more) blocks)
      (refused : ∀ blocks, ¬ WritesFile tokens blocks)
      (stands : finish = .ofOffset text.toList text.toList.length) :
      MalformedAt text (.unexpectedLexeme wanted none) finish

/-- A scan that stops does so at the character with which nothing starts. -/
theorem malformedAt_of_stopped {text : String} {tokens : List Token} {why : Malformation}
    {position : Position} (h : scan text = ⟨tokens, .stopped why position⟩) :
    MalformedAt text why position := by
  obtain ⟨offsets, stop, hcovered, hending⟩ := exists_covered text
  obtain ⟨offset, c, hget, hposition, hnamed⟩ :=
    ofChar_of_scanFrom .start text.toList [] rfl (congrArg Scan.ending h)
  rw [List.nil_append] at hget hposition
  rw [h] at hending
  obtain ⟨hlt, hstop, hnothing⟩ := hending
  obtain ⟨hoffset, -⟩ := List.getElem?_eq_some_iff.mp hget
  -- The two descriptions of the place are about one offset.
  have hsame : stop = offset :=
    (Position.ofOffset_inj hlt.le hoffset.le).mp (hstop.symm.trans hposition)
  subst hsame
  rw [hposition]
  exact .character hcovered hget hnothing hnamed

/-- What the tokens of a text are refused for stands where the fault says. -/
theorem malformedAt_of_ofTokens {text : String} {tokens : List Token} {finish : Position}
    {fault : Fault} (hscan : scan text = ⟨tokens, .finished finish⟩)
    (h : Block.ofTokens tokens finish = .error fault) :
    ∃ why position, fault = .atPosition (.malformed why) position ∧
      MalformedAt text why position := by
  have hfollows := follows_readBlocks tokens
  unfold Block.ofTokens at h
  cases hread : readBlocks tokens with
  | ok blocks =>
    rw [hread] at h
    cases h
  | error e =>
    rw [hread] at h hfollows
    obtain ⟨used, rest, stop, htokens, hused, hfound, hrefuses⟩ := hfollows
    have hviable := exists_writesFile_of_after hused
    obtain ⟨wanted, found⟩ := e
    cases hfound
    cases rest with
    | nil =>
      cases h
      rw [List.append_nil] at htokens
      subst htokens
      have hunfinished : ∀ blocks, ¬ WritesFile tokens blocks := by
        intro blocks hblocks
        rw [readBlocks_eq_ok_iff.mpr hblocks] at hread
        cases hread
      obtain ⟨_, _, -, hending⟩ := exists_covered text
      rw [hscan] at hending
      exact ⟨_, _, rfl, .finish hscan hviable hunfinished (hending.1 ▸ hending.2)⟩
    | cons t rest =>
      cases h
      subst htokens
      have hrefused : ∀ more blocks, ¬ WritesFile (used ++ t :: more) blocks := by
        intro more blocks hblocks
        have hafter := exists_writesFile_iff.mp ⟨blocks, hblocks⟩
        have hstop : stop.after (lexemes (t :: more)) ≠ some .block :=
          Awaiting.after_ne_block hrefuses
        rw [lexemes, List.map_append, Awaiting.after_append] at hafter
        rw [show Awaiting.after .block (used.map (·.lexeme)) = some stop from hused] at hafter
        exact hstop hafter
      have hmem : t ∈ (scan text).tokens := by simp [hscan]
      obtain ⟨offset, hstands⟩ := exists_standsAt_of_mem_scan hmem
      exact ⟨_, _, rfl, .token hscan hviable hrefused hstands⟩

/-- What is malformed is reported where the text stops being a workflow file. -/
theorem malformedAt_of_ofText {text : String} {fault : Fault}
    (h : Block.ofText text = .error fault) :
    ∃ why position, fault = .atPosition (.malformed why) position ∧
      MalformedAt text why position := by
  unfold Block.ofText at h
  split at h
  · next tokens finish hscan => exact malformedAt_of_ofTokens hscan h
  · next tokens why position hscan =>
    cases h
    exact ⟨why, position, rfl, malformedAt_of_stopped hscan⟩

end ContainerFlow
