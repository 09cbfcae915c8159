/-
ContainerFlow.Proofs.Block.Viable — where a text stops being a workflow
file.

The token that a reader of blocks complains of is one that it has no use
for where it is.  What stands before that token can be gone on with: the
state can be brought to the end of a file, and what brings it there can
be written (`Proofs.Token.Writing`).  With the token no file can go on.

The main statement is `malformed_at_first_token`.
-/
import Mathlib
import ContainerFlow.Proofs.Block.Awaiting
import ContainerFlow.Proofs.Compile
import ContainerFlow.Proofs.Token.Cover
import ContainerFlow.Proofs.Token.Writing

namespace ContainerFlow

/-! ## Files -/

/-- These are the lexemes of a text that is read as blocks. -/
def IsFile (ls : List Lexeme) : Prop :=
  ∃ text tokens finish blocks, scan text = ⟨tokens, .finished finish⟩ ∧ lexemes tokens = ls ∧
    Block.ofText text = .ok blocks

theorem after_of_isFile {ls : List Lexeme} (h : IsFile ls) :
    Awaiting.after .block ls = some .block := by
  obtain ⟨text, tokens, finish, blocks, hscan, rfl, hblocks⟩ := h
  obtain ⟨tokens', finish', hscan', hread⟩ := Block.ofText_eq_ok_iff.mp hblocks
  rw [hscan] at hscan'
  cases hscan'
  exact readBlocks_isOk_iff.mp ⟨blocks, hread⟩

/-- Lexemes that can be written and lead from one block to another are those of a text. -/
theorem isFile_of_after {ls : List Lexeme} (hls : ∀ l ∈ ls, l.Spelled)
    (h : Awaiting.after .block ls = some .block) : IsFile ls := by
  obtain ⟨text, tokens, finish, hscan, rfl⟩ := exists_scan_of_spelled hls
  obtain ⟨blocks, hread⟩ := readBlocks_isOk_iff.mpr h
  exact ⟨text, tokens, finish, blocks, hscan, rfl,
    Block.ofText_eq_ok_iff.mpr ⟨tokens, finish, hscan, hread⟩⟩

/-! ## Main result -/

/-- The position of the first of these tokens, or of the end of the text. -/
def positionOf (rest : List Token) (finish : Position) : Position :=
  (rest.head?.map (·.position)).getD finish

theorem exists_error_of_ofText {text : String} {tokens : List Token} {finish : Position}
    {fault : Fault} (hscan : scan text = ⟨tokens, .finished finish⟩)
    (h : Block.ofText text = .error fault) :
    ∃ e why, readBlocks tokens = .error e ∧ fault = .atPosition (.malformed why)
      ((e.found.map (·.position)).getD finish) := by
  rw [Block.ofText, hscan] at h
  simp only [Block.ofTokens] at h
  cases hread : readBlocks tokens with
  | ok blocks =>
    rw [hread] at h
    cases h
  | error e =>
    obtain ⟨wanted, found⟩ := e
    rw [hread] at h
    cases found <;>
    · cases h
      exact ⟨_, _, rfl, rfl⟩

/-- **What is malformed is reported at the first token that cannot stand where it does**: the tokens
before it are the beginning of a file, but with it, or with the end of the text in its place, they
are not. -/
theorem malformed_at_first_token {text : String} {tokens : List Token} {finish : Position}
    {fault : Fault} (hscan : scan text = ⟨tokens, .finished finish⟩)
    (h : Block.ofText text = .error fault) :
    ∃ used rest why, tokens = used ++ rest ∧
      fault = .atPosition (.malformed why) (positionOf rest finish) ∧
      (∃ more, IsFile (lexemes used ++ more)) ∧
      match rest with
      | [] => ¬ IsFile (lexemes used)
      | t :: _ => ∀ more, ¬ IsFile (lexemes used ++ t.lexeme :: more) := by
  obtain ⟨e, why, hread, hfault⟩ := exists_error_of_ofText hscan h
  have hfollows := follows_readBlocks tokens
  rw [hread] at hfollows
  obtain ⟨used, rest, stop, htokens, hused, hfound, hrefuses⟩ := hfollows
  rw [hfound] at hfault
  refine ⟨used, rest, why, htokens, hfault, ⟨stop.closing, ?_⟩, ?_⟩
  · have hspelled : ∀ l ∈ lexemes used, l.Spelled := by
      intro l hl
      obtain ⟨t, ht, rfl⟩ := List.mem_map.mp hl
      have hall := spelled_of_mem_scan text
      rw [hscan] at hall
      exact hall t (htokens ▸ List.mem_append_left rest ht)
    refine isFile_of_after (List.forall_mem_append.mpr ⟨hspelled, stop.spelled_of_mem_closing⟩) ?_
    rw [Awaiting.after_append, hused]
    exact stop.after_closing
  · have hbehind (ls : List Lexeme) :
        Awaiting.after .block (lexemes used ++ ls) = stop.after ls := by
      rw [Awaiting.after_append, hused]
      rfl
    cases rest with
    | nil =>
      intro hfile
      have hafter := after_of_isFile hfile
      rw [hused] at hafter
      exact hrefuses (Option.some.inj hafter)
    | cons t rest =>
      intro more hfile
      have hnext : stop.next t.lexeme = none := hrefuses
      have hafter := after_of_isFile hfile
      rw [hbehind, Awaiting.after, hnext] at hafter
      cases hafter

theorem readBlocks_of_error {t : Token} {rest : List Token} {e : Unexpected}
    (h : readBlock (t :: rest) = .error e) : readBlocks (t :: rest) = .error e := by
  rw [readBlocks_cons, h]
  rfl

/-- Behind the first item of an array a comma is missing. -/
theorem malformed_at_first_token_items :
    let text := "workflow \"w\" \x7b on = [\"push\" \"pull\"] \x7d"
    ∃ tokens finish fault, scan text = ⟨tokens, .finished finish⟩ ∧
      Block.ofText text = .error fault ∧
      fault = .atPosition (.malformed (.unexpectedLexeme (.symbol .rightBracket)
        (some (.string "pull")))) ⟨1, 29⟩ ∧
      ∃ used rest why, tokens = used ++ rest ∧
        fault = .atPosition (.malformed why) (positionOf rest finish) ∧
        (∃ more, IsFile (lexemes used ++ more)) ∧
        match rest with
        | [] => ¬ IsFile (lexemes used)
        | t :: _ => ∀ more, ¬ IsFile (lexemes used ++ t.lexeme :: more) := by
  intro text
  have hscan : scan text = scan text := rfl
  conv_rhs at hscan => cbv
  have herror : Block.ofText text = .error (.atPosition (.malformed
      (.unexpectedLexeme (.symbol .rightBracket) (some (.string "pull")))) ⟨1, 29⟩) := by
    rw [Block.ofText, hscan]
    simp only [Block.ofTokens]
    rw [readBlocks_of_error (by cbv)]
    rfl
  exact ⟨_, _, _, hscan, herror, rfl, malformed_at_first_token hscan herror⟩

end ContainerFlow
