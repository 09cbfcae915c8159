/-
ContainerFlow.Proofs.Block.Writing — blocks, written and read again.

A block is written as its lexemes (`Block.lexemes`), with a comma between
each two items of an array and each two entries of a map, and lexemes are
written with one blank between each two (`Lexeme.spaced`).  What is read
from such a text is the blocks that were written, positions apart.

Nothing that a string holds matters here: the lexemes are found again
because they are spelled as they have to be (`scanFrom_of_laidOut`), and
the lexemes of a block are when the block is.
-/
import Mathlib
import ContainerFlow.Proofs.Block.Spelling
import ContainerFlow.Proofs.Moved
import ContainerFlow.Proofs.Token.Writing

namespace ContainerFlow

/-! ## Lexemes with blanks between them -/

namespace Lexeme

/-- Lexemes with one blank between each two; `blank n` is the one before the last `n` of them. -/
def spaced (blank : Nat → Char) : List Lexeme → List Char
  | [] => []
  | [l] => l.chars
  | l :: m :: ls => l.chars ++ blank (ls.length + 1) :: spaced blank (m :: ls)

theorem laidOut_spaced {blank : Nat → Char} (hblank : ∀ n, isLayout (blank n)) {ls : List Lexeme}
    (h : ∀ l ∈ ls, l.Spelled) : LaidOut [] (spaced blank ls) ls := by
  induction ls with
  | nil => exact .done .nil
  | cons l ls ih =>
    obtain ⟨hl, hls⟩ := List.forall_mem_cons.mp h
    cases ls with
    | nil =>
      have hends : l.EndsBefore [] := endsBefore_of_head? (by simp) l
      have hend : LaidOut [] (l.chars ++ []) [l] := .cons hl hends (.done .nil)
      rwa [List.append_nil] at hend
    | cons m ls =>
      exact .cons hl (endsBefore_blank (hblank _) l _)
        ((ih hls).of_gap (.blank (isLayout_iff.mp (hblank _)) .nil))

end Lexeme

/-! ## The lexemes of blocks -/

/-- Rows of lexemes, with a comma between each two. -/
def separated (rows : List (List Lexeme)) : List Lexeme := [.symbol .comma].intercalate rows

/-- The lexemes of an entry of a map. -/
def entryLexemes (entry : String × String) : List Lexeme :=
  [.name entry.1, .symbol .equals, .string entry.2]

/-- The lexemes of a value. -/
def Value.lexemes : Value → List Lexeme
  | .string text => [.string text]
  | .array items =>
    .symbol .leftBracket :: separated (items.map fun item => [.string item]) ++
      [.symbol .rightBracket]
  | .map b =>
    .symbol .leftBrace :: separated (b.entries.map entryLexemes) ++ [.symbol .rightBrace]

/-- The lexemes of a pair. -/
def Pair.lexemes (pair : Pair) : List Lexeme :=
  .name pair.key :: .symbol .equals :: pair.value.lexemes

/-- The lexemes of a block. -/
def Block.lexemes (b : Block) : List Lexeme :=
  .name b.kind :: .string b.name :: .symbol .leftBrace :: b.pairs.flatMap Pair.lexemes ++
    [.symbol .rightBrace]

theorem separated_nil : separated [] = [] := rfl

theorem separated_singleton (row : List Lexeme) : separated [row] = row :=
  List.intercalate_singleton

theorem separated_cons_cons (row next : List Lexeme) (rows : List (List Lexeme)) :
    separated (row :: next :: rows) = row ++ .symbol .comma :: separated (next :: rows) := by
  rw [separated, List.intercalate_cons_cons, List.append_assoc]
  rfl

/-! ## How they are spelled -/

theorem spelled_of_mem_separated {rows : List (List Lexeme)}
    (h : ∀ row ∈ rows, ∀ l ∈ row, l.Spelled) : ∀ l ∈ separated rows, l.Spelled := by
  induction rows with
  | nil => simp [separated_nil]
  | cons row rows ih =>
    obtain ⟨hrow, hrows⟩ := List.forall_mem_cons.mp h
    cases rows with
    | nil => rwa [separated_singleton]
    | cons next rows =>
      rw [separated_cons_cons]
      exact List.forall_mem_append.mpr ⟨hrow, List.forall_mem_cons.mpr ⟨trivial, ih hrows⟩⟩

theorem Value.Spelled.lexemes {v : Value} (h : v.Spelled) : ∀ l ∈ v.lexemes, l.Spelled := by
  cases v with
  | string text => exact List.forall_mem_singleton.mpr h
  | array items =>
    have hitems : ∀ l ∈ separated (items.map fun item => [.string item]), l.Spelled := by
      refine spelled_of_mem_separated (List.forall_mem_map.mpr fun item hitem => ?_)
      exact List.forall_mem_singleton.mpr (h item hitem)
    simpa [Value.lexemes, or_imp, forall_and, Lexeme.Spelled] using hitems
  | map b =>
    have hentries : ∀ l ∈ separated (b.entries.map entryLexemes), l.Spelled := by
      refine spelled_of_mem_separated (List.forall_mem_map.mpr fun entry hentry => ?_)
      obtain ⟨hname, htext⟩ := h entry hentry
      simpa [entryLexemes] using ⟨hname, trivial, htext⟩
    simpa [Value.lexemes, or_imp, forall_and, Lexeme.Spelled] using hentries

theorem Pair.Spelled.lexemes {pair : Pair} (h : pair.Spelled) : ∀ l ∈ pair.lexemes, l.Spelled :=
  List.forall_mem_cons.mpr ⟨h.key, List.forall_mem_cons.mpr ⟨trivial, h.value.lexemes⟩⟩

/-- Both kinds are names. -/
theorem isName_of_kind {kind : String} (h : kind = Block.workflowKind ∨ kind = Block.actionKind) :
    IsName kind.toList := by
  rcases h with rfl | rfl
  · exact ⟨'w', ['o', 'r', 'k', 'f', 'l', 'o', 'w'], rfl, rfl, by simp [isNameChar]⟩
  · exact ⟨'a', ['c', 't', 'i', 'o', 'n'], rfl, rfl, by simp [isNameChar]⟩

theorem Block.Spelled.lexemes {b : Block} (h : b.Spelled) : ∀ l ∈ b.lexemes, l.Spelled := by
  have hpairs : ∀ l ∈ b.pairs.flatMap Pair.lexemes, l.Spelled :=
    List.forall_mem_flatMap.mpr fun pair hpair => (h.pairs pair hpair).lexemes
  refine List.forall_mem_append.mpr ⟨?_, List.forall_mem_singleton.mpr trivial⟩
  exact List.forall_mem_cons.mpr ⟨isName_of_kind h.kind, List.forall_mem_cons.mpr ⟨h.name,
    List.forall_mem_cons.mpr ⟨trivial, hpairs⟩⟩⟩

/-! ## What they write -/

/-- Lexemes as tokens that stand nowhere in particular. -/
def placed (ls : List Lexeme) : List Token := ls.map (Token.mk · .start)

theorem placed_append (ls ms : List Lexeme) : placed (ls ++ ms) = placed ls ++ placed ms :=
  List.map_append

theorem writesItems_lexemes (items : List String) :
    WritesItems (placed (separated (items.map fun item => [.string item]))) items := by
  induction items with
  | nil => exact .nil
  | cons item items ih =>
    cases items with
    | nil => exact .cons (Token.quotes item _) .nil .absent
    | cons next items =>
      rw [List.map_cons, List.map_cons, separated_cons_cons]
      exact .push (Token.quotes item _) ih

theorem writesEntries_lexemes (entries : List (String × String)) :
    Many WritesEntry (placed (separated (entries.map entryLexemes))) entries := by
  induction entries with
  | nil => exact .nil
  | cons entry entries ih =>
    cases entries with
    | nil =>
      have hlast : WritesEntry (placed (entryLexemes entry)) entry :=
        .mk (Token.quotes entry.2 _) .absent
      have hone := Many.cons hlast .nil
      rwa [List.append_nil] at hone
    | cons next entries =>
      rw [List.map_cons, List.map_cons, separated_cons_cons]
      have hfirst : WritesEntry (placed (entryLexemes entry ++ [.symbol .comma])) entry :=
        .mk (Token.quotes entry.2 _) .present
      exact .cons hfirst ih

theorem writesValue_lexemes (v : Value) : WritesValue (placed v.lexemes) v := by
  cases v with
  | string text => exact .string (Token.quotes text _)
  | array items =>
    rw [Value.lexemes, placed_append]
    exact .array (writesItems_lexemes items)
  | map b =>
    rw [Value.lexemes, placed_append]
    exact .map (writesEntries_lexemes b.entries) (Bindings.gathers_iff.mpr b.ofList_entries.symm)

open Position (forget)

theorem writesPairs_lexemes (pairs : List Pair) :
    Many WritesPair (placed (pairs.flatMap Pair.lexemes)) (pairs.map (Pair.moved forget)) := by
  induction pairs with
  | nil => exact .nil
  | cons pair pairs ih =>
    rw [List.flatMap_cons, placed_append]
    exact .cons (.mk (writesValue_lexemes pair.value)) ih

theorem writesBlock_lexemes {b : Block}
    (hkind : b.kind = Block.workflowKind ∨ b.kind = Block.actionKind) :
    WritesBlock (placed b.lexemes) (b.moved forget) := by
  rw [Block.lexemes, placed_append]
  exact .mk hkind (Token.quotes b.name _) (writesPairs_lexemes b.pairs)

/-- The lexemes of blocks are the file that holds these blocks. -/
theorem writesFile_lexemes {blocks : List Block} (h : ∀ b ∈ blocks, b.Spelled) :
    WritesFile (placed (blocks.flatMap Block.lexemes)) (blocks.map (Block.moved forget)) := by
  induction blocks with
  | nil => exact .nil
  | cons b blocks ih =>
    obtain ⟨hb, hblocks⟩ := List.forall_mem_cons.mp h
    rw [List.flatMap_cons, placed_append]
    exact .cons (writesBlock_lexemes hb.kind) (ih hblocks)

/-! ## Main result -/

/-- Tokens are read as their lexemes are, wherever they stand. -/
theorem exists_readBlocks_of_lexemes {tokens : List Token} {blocks : List Block}
    (h : ∀ b ∈ blocks, b.Spelled) (htokens : lexemes tokens = blocks.flatMap Block.lexemes) :
    ∃ read, readBlocks tokens = .ok read ∧
      read.map (Block.moved forget) = blocks.map (Block.moved forget) := by
  have hplaced : tokens.map (Token.moved forget) = placed (blocks.flatMap Block.lexemes) := by
    rw [map_moved_forget, htokens, placed]
  have hread := readBlocks_of_writes (writesFile_lexemes h)
  rw [← hplaced, readBlocks_moved] at hread
  cases hblocks : readBlocks tokens with
  | ok read =>
    rw [hblocks] at hread
    exact ⟨read, rfl, Except.ok.inj hread⟩
  | error e =>
    rw [hblocks] at hread
    cases hread

/-- **What was read can be written and read again.** Whatever is read from a text is spelled as
blocks have to be; that the names in a map differ is part of `Bindings`.  And blocks that are spelled
so are read from the text in which they are written, with any blank between each two lexemes, and
with nothing but the positions changed. -/
theorem ofText_spaced :
    (∀ text blocks, Block.ofText text = .ok blocks → ∀ b ∈ blocks, b.Spelled) ∧
    ∀ (blocks : List Block) (blank : Nat → Char), (∀ b ∈ blocks, b.Spelled) →
      (∀ n, isLayout (blank n)) →
      ∃ read, Block.ofText
          (String.ofList (Lexeme.spaced blank (blocks.flatMap Block.lexemes))) = .ok read ∧
        read.map (Block.moved forget) = blocks.map (Block.moved forget) := by
  refine ⟨fun text blocks h => spelled_of_ofText h, fun blocks blank hblocks hblank => ?_⟩
  have hlexemes : ∀ l ∈ blocks.flatMap Block.lexemes, l.Spelled :=
    List.forall_mem_flatMap.mpr fun b hb => (hblocks b hb).lexemes
  obtain ⟨tokens, finish, hscan, htokens⟩ :=
    scanFrom_of_laidOut (Lexeme.laidOut_spaced hblank hlexemes) .start
  obtain ⟨read, hread, hmoved⟩ := exists_readBlocks_of_lexemes hblocks htokens
  refine ⟨read, ?_, hmoved⟩
  rw [Block.ofText_eq_ok_iff, scan, String.toList_ofList]
  exact ⟨tokens, finish, hscan, hread⟩

/-- Strings may hold what would mean something outside of them, and a doubled backslash at their
end. -/
theorem ofText_spaced_tangled :
    let tangled := "\x7b , ] # // \\\" \\\\"
    let blocks : List Block := [⟨"action", tangled, .start,
      [⟨"args", .array [tangled, ""], .start⟩, ⟨"env", .map ⟨[("A", tangled)], by simp⟩, .start⟩]⟩]
    ∃ read, Block.ofText
        (String.ofList (Lexeme.spaced (fun n => if n = 3 then '\n' else '\t')
          (blocks.flatMap Block.lexemes))) = .ok read ∧
      read.map (Block.moved forget) = blocks.map (Block.moved forget) := by
  intro tangled blocks
  have hquoted : stringBody (tangled.toList ++ ['\x22']) = some (tangled.toList, []) := by cbv
  have htangled := (stringBody_eq_some_iff.mp hquoted).1
  have hargs : IsName "args".toList := ⟨'a', ['r', 'g', 's'], rfl, rfl, by simp [isNameChar]⟩
  have henv : IsName "env".toList := ⟨'e', ['n', 'v'], rfl, rfl, by simp [isNameChar]⟩
  have hname : IsName "A".toList := ⟨'A', [], rfl, rfl, by simp⟩
  have hpairs : ∀ pair ∈ [Pair.mk "args" (.array [tangled, ""]) .start,
      ⟨"env", .map ⟨[("A", tangled)], by simp⟩, .start⟩], pair.Spelled := by
    refine List.forall_mem_cons.mpr ⟨⟨hargs, ?_⟩, List.forall_mem_singleton.mpr ⟨henv, ?_⟩⟩
    · exact List.forall_mem_cons.mpr ⟨htangled, List.forall_mem_singleton.mpr .nil⟩
    · exact List.forall_mem_singleton.mpr ⟨hname, htangled⟩
  have hblocks : ∀ b ∈ blocks, b.Spelled :=
    List.forall_mem_singleton.mpr ⟨.inr rfl, htangled, hpairs⟩
  refine ofText_spaced.2 blocks _ hblocks fun n => ?_
  show isLayout (if n = 3 then '\n' else '\t')
  split <;> rfl

end ContainerFlow
