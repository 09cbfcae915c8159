/-
ContainerFlow.Proofs.Layout — blanks and comments next to the tokens of a
text change nothing but positions.

A place next to a token is one immediately before or behind it, or the
end of the text (`NextTo`).  It is told by a position, and a position
tells it apart from all other places (`Position.append_inj`).  At such a
place the text falls into what is laid out as the tokens so far and what
is laid out as the others, and a filler may stand between the two
(`laidOut_fill`).  So the changed text has the same lexemes, and what is
made of them is the same, positions apart.

The main statement is `alike_of_filler`.
-/
import Mathlib
import ContainerFlow.Proofs.Culprit.Text
import ContainerFlow.Proofs.Moved
import ContainerFlow.Proofs.Token.Filler

namespace ContainerFlow

open Position (forget)

/-! ## Places next to tokens -/

/-- Behind the characters `before`, immediately before or behind one of the tokens, or at the end. -/
inductive NextTo (tokens : List Token) (finish : Position) : List Char → Prop where
  | before {t : Token} {before : List Char} (mem : t ∈ tokens)
      (stands : t.position = Position.start.after before) : NextTo tokens finish before
  | behind {t : Token} {before : List Char} (mem : t ∈ tokens)
      (stands : t.position = Position.start.after before) :
      NextTo tokens finish (before ++ t.lexeme.chars)
  | finish {before : List Char} (ends : finish = Position.start.after before) :
      NextTo tokens finish before

/-- A position tells apart the two sides of a text. -/
theorem Position.append_inj {pre post before after : List Char}
    (h : pre ++ post = before ++ after) (hafter : start.after pre = start.after before) :
    pre = before ∧ post = after := by
  have hpre : pre.length ≤ (before ++ after).length := by rw [← h]; simp
  rw [← ofOffset_append pre post, h, ← ofOffset_append before after,
    ofOffset_inj hpre (by simp)] at hafter
  exact List.append_inj h hafter

/-- A scan that comes to the end of a text ends behind its last character. -/
theorem finish_eq_after {text : String} {tokens : List Token} {finish : Position}
    (h : scan text = ⟨tokens, .finished finish⟩) : finish = Position.start.after text.toList := by
  obtain ⟨offsets, stop, -, hending⟩ := exists_covered text
  rw [h] at hending
  obtain ⟨hstop, hfinish⟩ := hending
  rw [hfinish, hstop, ← Position.ofOffset_append text.toList [], List.append_nil]

/-- With a filler next to one of its tokens, a text is laid out as before. -/
theorem laidOut_fill {before after filler : String} {tokens : List Token} {finish : Position}
    (hscan : scan (before ++ after) = ⟨tokens, .finished finish⟩)
    (hplace : NextTo tokens finish before.toList) (hfiller : IsFiller filler.toList) :
    LaidOut [] (before ++ filler ++ after).toList (lexemes tokens) := by
  have hfinish := finish_eq_after hscan
  rw [scan] at hscan
  rw [String.toList_append] at hscan hfinish ⊢
  rw [String.toList_append]
  generalize hbefore : before.toList = cs at *
  cases hplace with
  | before mem stands =>
    obtain ⟨ls, ms, htokens⟩ := List.append_of_mem mem
    obtain ⟨pre, post, hcs, hposition, hspelled, hends, hpre, hpost⟩ :=
      exists_laidOut_of_scanFrom hscan htokens
    obtain ⟨rfl, hafter⟩ := Position.append_inj hcs.symm (hposition.symm.trans stands)
    rw [← hafter, htokens, lexemes, List.map_append, List.map_cons]
    exact hpre.fill_before hspelled hends hpost hfiller
  | behind mem stands =>
    obtain ⟨ls, ms, htokens⟩ := List.append_of_mem mem
    obtain ⟨pre, post, hcs, hposition, hspelled, hends, hpre, hpost⟩ :=
      exists_laidOut_of_scanFrom hscan htokens
    rw [List.append_assoc] at hcs
    obtain ⟨rfl, hafter⟩ := Position.append_inj hcs.symm (hposition.symm.trans stands)
    have hpost' := List.append_cancel_left hafter
    rw [htokens, lexemes, List.map_append, List.map_cons, ← hpost']
    simpa using hpre.fill_behind hspelled hends hpost hfiller
  | finish ends =>
    have hnil : after.toList = [] := by
      have happend : cs ++ after.toList ++ [] = cs ++ after.toList := List.append_nil _
      obtain ⟨hcs, -⟩ := Position.append_inj happend (hfinish.symm.trans ends)
      simpa using hcs
    rw [hnil, List.append_nil] at hscan ⊢
    exact (laidOut_of_scanFrom hscan).append_filler hfiller

/-! ## Main result -/

theorem Workflow.ofText_eq_bind (text : String) :
    ofText text = ((Block.ofText text >>= Definition.ofBlocks) >>= ofDefinitions) := by
  rw [bind_assoc]
  rfl

/-- **Blanks and comments mean nothing**: with blanks and closed comments put immediately before or
behind one of its tokens, or at its end, a text has the same lexemes as before.  Blocks, definitions
and workflow are the same, positions apart, or else there is the same fault at some other place. -/
theorem alike_of_filler {before after filler : String} {tokens : List Token} {finish : Position}
    (hscan : scan (before ++ after) = ⟨tokens, .finished finish⟩)
    (hplace : NextTo tokens finish before.toList) (hfiller : IsFiller filler.toList) :
    (∃ tokens' finish', scan (before ++ filler ++ after) = ⟨tokens', .finished finish'⟩ ∧
      lexemes tokens' = lexemes tokens) ∧
    Alike (List.map (Block.moved forget)) (Block.ofText (before ++ filler ++ after))
      (Block.ofText (before ++ after)) ∧
    Alike (List.map (Definition.moved forget))
      (Block.ofText (before ++ filler ++ after) >>= Definition.ofBlocks)
      (Block.ofText (before ++ after) >>= Definition.ofBlocks) ∧
    Alike id (Workflow.ofText (before ++ filler ++ after)) (Workflow.ofText (before ++ after)) := by
  obtain ⟨tokens', finish', hscan', hlexemes⟩ :=
    scanFrom_of_laidOut (laidOut_fill hscan hplace hfiller) .start
  have hblocks : Alike (List.map (Block.moved forget))
      (Block.ofText (before ++ filler ++ after)) (Block.ofText (before ++ after)) := by
    rw [Block.ofText, Block.ofText, hscan, scan, hscan']
    exact ofTokens_alike hlexemes finish finish'
  have hworkflow := hblocks.definitions.workflow
  rw [← Workflow.ofText_eq_bind, ← Workflow.ofText_eq_bind] at hworkflow
  exact ⟨⟨tokens', finish', hscan', hlexemes⟩, hblocks, hblocks.definitions, hworkflow⟩

/-- A comment that is open at the end of a text takes the first line of what is put behind it. -/
theorem alike_of_filler_openComment :
    let text := "action \"a\" \x7b uses = \"x\" \x7d // open"
    let filler := "#\"\n // \x7d\n"
    ∃ tokens finish, scan (text ++ "") = ⟨tokens, .finished finish⟩ ∧
      NextTo tokens finish text.toList ∧ IsFiller filler.toList ∧
      ∃ tokens' finish', scan (text ++ filler ++ "") = ⟨tokens', .finished finish'⟩ ∧
        lexemes tokens' = lexemes tokens := by
  intro text filler
  have hscan : scan text = scan text := rfl
  conv_rhs at hscan => cbv
  have hplace (tokens : List Token) : NextTo tokens ⟨1, 34⟩ text.toList := .finish (by cbv)
  have hfiller : IsFiller filler.toList := by
    have hchars : filler.toList =
        ['#'] ++ ['\x22'] ++ '\n' :: ' ' :: (['/', '/'] ++ [' ', '\x7d'] ++ '\n' :: []) := by cbv
    rw [hchars]
    exact .comment (.inl rfl) (by decide) (.blank (.inl rfl)
      (.comment (.inr rfl) (by decide) .nil))
  rw [← String.append_empty (s := text)] at hscan
  exact ⟨_, _, hscan, hplace _, hfiller, (alike_of_filler hscan (hplace _) hfiller).1⟩

end ContainerFlow
