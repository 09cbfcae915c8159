/-
ContainerFlow.Proofs.Definition.Words — words in one string are as good
as a list of them.

A key that takes a list of words takes a string that is written from them
in place of the list (`Pair.Respelled`), and what is read is the list
(`Value.wordsOrArray_of_writtenFrom`).  Everything else that is read off a
block is the same, because nothing but the value has changed: keys and
positions are where they were (`rel_find?`).  So the block makes the same
definition, or is refused for the same thing.

The main statement is `words_stand_for_list`.
-/
import Mathlib
import ContainerFlow.Proofs.Definition
import ContainerFlow.Proofs.Text.Words

namespace ContainerFlow

open Text (IsWord WrittenFrom)

/-- A string of words is read as the list of the words. -/
theorem Value.wordsOrArray_of_writtenFrom {text : String} {ws : List String}
    (hwords : ∀ w ∈ ws, IsWord w) (hwritten : WrittenFrom ws text) (position : Option Position) :
    (Value.string text).wordsOrArray position = .ok ws := by
  rw [wordsOrArray, Text.words_of_writtenFrom hwords hwritten]

/-- The keys that take a list of words. -/
def wordKeys : List String := ["runs", "args"]

/-- The pair is the same, or gives a list of words where the other gives a string of them. -/
inductive Pair.Respelled : Pair → Pair → Prop where
  | same (pair : Pair) : Respelled pair pair
  | words {key text : String} {ws : List String} (p : Position) (takes : key ∈ wordKeys)
      (isWord : ∀ w ∈ ws, IsWord w) (written : WrittenFrom ws text) :
      Respelled ⟨key, .string text, p⟩ ⟨key, .array ws, p⟩

namespace Pair.Respelled

variable {pair other : Pair}

theorem key_eq (h : Respelled pair other) : other.key = pair.key := by
  cases h <;> rfl

theorem position_eq (h : Respelled pair other) : other.position = pair.position := by
  cases h <;> rfl

/-- A key that takes no list of words has the value that it had. -/
theorem eq_of_notMem (h : Respelled pair other) (hkey : pair.key ∉ wordKeys) : other = pair := by
  cases h with
  | same => rfl
  | words p takes isWord written => exact absurd takes hkey

/-- As a list of words, the two are read alike. -/
theorem wordsOrArray_eq (h : Respelled pair other) (position : Option Position) :
    other.value.wordsOrArray position = pair.value.wordsOrArray position := by
  cases h with
  | same => rfl
  | words p takes isWord written =>
    exact (Value.wordsOrArray_of_writtenFrom isWord written position).symm

end Pair.Respelled

variable {pairs others : List Pair}

/-! ## What is found -/

/-- Looked for by its key, the same pair is found, or the other in its place. -/
theorem rel_find? (h : List.Forall₂ Pair.Respelled pairs others) (p : String → Bool) :
    Option.Rel Pair.Respelled (pairs.find? fun pair => p pair.key)
      (others.find? fun pair => p pair.key) := by
  induction h with
  | nil => exact .none
  | @cons pair other _ _ hpair _ ih =>
    rw [List.find?_cons, List.find?_cons, hpair.key_eq]
    cases p pair.key with
    | true => exact .some hpair
    | false => exact ih

theorem rel_firstRepeat (h : List.Forall₂ Pair.Respelled pairs others) (seen : List String) :
    Option.Rel Pair.Respelled (firstRepeat seen pairs) (firstRepeat seen others) := by
  induction h generalizing seen with
  | nil => exact .none
  | @cons pair other _ _ hpair _ ih =>
    rw [firstRepeat, firstRepeat, hpair.key_eq]
    split
    · exact .some hpair
    · exact ih _

/-- Both find nothing, or each finds its pair. -/
theorem Pair.Respelled.found {x y : Option Pair} (h : Option.Rel Respelled x y) :
    (x = none ∧ y = none) ∨
      ∃ pair other, x = some pair ∧ y = some other ∧ Respelled pair other := by
  cases h with
  | none => exact .inl ⟨rfl, rfl⟩
  | some hpair => exact .inr ⟨_, _, rfl, rfl, hpair⟩

/-! ## What is read -/

section Read

variable {α : Type} {read : Value → Option Position → Except Fault α} {b : Block}

/-- Read under the key, a list of words and a string of them are the same. -/
def ReadsAlike (key : String) (read : Value → Option Position → Except Fault α) : Prop :=
  ∀ pair other, Pair.Respelled pair other → pair.key = key →
    ∀ position, read other.value position = read pair.value position

theorem readsAlike_wordsOrArray (key : String) : ReadsAlike key Value.wordsOrArray := by
  intro pair other hpair _ position
  exact hpair.wordsOrArray_eq position

theorem readsAlike_of_notMem {key : String} (hkey : key ∉ wordKeys) : ReadsAlike key read := by
  rintro pair other hpair rfl position
  rw [hpair.eq_of_notMem hkey]

namespace Block

theorem found_pair? (h : List.Forall₂ Pair.Respelled b.pairs others) (key : String) :
    (b.pair? key = none ∧ { b with pairs := others }.pair? key = none) ∨
      ∃ pair other, b.pair? key = some pair ∧ { b with pairs := others }.pair? key = some other ∧
        Pair.Respelled pair other :=
  Pair.Respelled.found (rel_find? h (· == key))

theorem checkDistinct_respelled (h : List.Forall₂ Pair.Respelled b.pairs others) :
    { b with pairs := others }.checkDistinct = b.checkDistinct := by
  unfold checkDistinct
  rcases Pair.Respelled.found (rel_firstRepeat h []) with
    ⟨hnone, hnone'⟩ | ⟨pair, other, hsome, hsome', hpair⟩
  · rw [hnone, hnone']
  · rw [hsome, hsome']
    simp only [hpair.key_eq, hpair.position_eq]

theorem checkRequired_respelled (h : List.Forall₂ Pair.Respelled b.pairs others)
    (required : List String) :
    { b with pairs := others }.checkRequired required = b.checkRequired required := by
  have hsame : ∀ key, ({ b with pairs := others }.pair? key).isNone = (b.pair? key).isNone := by
    intro key
    rcases found_pair? h key with ⟨hnone, hnone'⟩ | ⟨pair, other, hsome, hsome', -⟩
    · rw [hnone, hnone']
    · rw [hsome, hsome']
      rfl
  unfold checkRequired
  simp only [hsame]
  rfl

theorem checkKnown_respelled (h : List.Forall₂ Pair.Respelled b.pairs others)
    (known : List String) :
    { b with pairs := others }.checkKnown known = b.checkKnown known := by
  unfold checkKnown
  rcases Pair.Respelled.found (rel_find? h fun key => !known.contains key) with
    ⟨hnone, hnone'⟩ | ⟨pair, other, hsome, hsome', hpair⟩
  · rw [hnone, hnone']
  · rw [hsome, hsome']
    simp only [hpair.key_eq, hpair.position_eq]

theorem optional_respelled (h : List.Forall₂ Pair.Respelled b.pairs others) {key : String}
    (hread : ReadsAlike key read) :
    { b with pairs := others }.optional key read = b.optional key read := by
  unfold optional
  rcases found_pair? h key with ⟨hnone, hnone'⟩ | ⟨pair, other, hsome, hsome', hpair⟩
  · rw [hnone, hnone']
  · have hkey : pair.key = key := by simpa using List.find?_some hsome
    rw [hsome, hsome']
    simp only [hpair.position_eq, hread pair other hpair hkey]

theorem required_respelled (h : List.Forall₂ Pair.Respelled b.pairs others) {key : String}
    (hread : ReadsAlike key read) :
    { b with pairs := others }.required key read = b.required key read := by
  unfold required
  rcases found_pair? h key with ⟨hnone, hnone'⟩ | ⟨pair, other, hsome, hsome', hpair⟩
  · rw [hnone, hnone']
    rfl
  · have hkey : pair.key = key := by simpa using List.find?_some hsome
    rw [hsome, hsome']
    simp only [hpair.position_eq, hread pair other hpair hkey]

end Block

end Read

/-! ## Definitions -/

variable {b : Block}

theorem WorkflowDefinition.ofBlock_respelled
    (h : List.Forall₂ Pair.Respelled b.pairs others) :
    ofBlock { b with pairs := others } = ofBlock b := by
  have hon : ReadsAlike "on" Value.asString := readsAlike_of_notMem (by decide)
  have hresolves : ReadsAlike "resolves" Value.singletonOrArray := readsAlike_of_notMem (by decide)
  unfold ofBlock
  rw [Block.checkDistinct_respelled h, Block.checkRequired_respelled h,
    Block.required_respelled h hon, Block.required_respelled h hresolves,
    Block.checkKnown_respelled h]

theorem ActionDefinition.ofBlock_respelled
    (h : List.Forall₂ Pair.Respelled b.pairs others) :
    ofBlock { b with pairs := others } = ofBlock b := by
  have huses : ReadsAlike "uses" Value.asString := readsAlike_of_notMem (by decide)
  have hneeds : ReadsAlike "needs" Value.singletonOrArray := readsAlike_of_notMem (by decide)
  have henv : ReadsAlike "env" Value.asMap := readsAlike_of_notMem (by decide)
  have hsecrets : ReadsAlike "secrets" Value.asArray := readsAlike_of_notMem (by decide)
  unfold ofBlock
  rw [Block.checkDistinct_respelled h, Block.checkRequired_respelled h,
    Block.required_respelled h huses, Block.optional_respelled h hneeds,
    Block.optional_respelled h (readsAlike_wordsOrArray "runs"),
    Block.optional_respelled h (readsAlike_wordsOrArray "args"),
    Block.optional_respelled h henv, Block.optional_respelled h hsecrets,
    Block.checkKnown_respelled h]

/-- With lists of words in the place of strings, a block makes the same definition or is refused for
the same thing. -/
theorem Definition.ofBlock_respelled (h : List.Forall₂ Pair.Respelled b.pairs others) :
    ofBlock { b with pairs := others } = ofBlock b := by
  unfold ofBlock
  rw [WorkflowDefinition.ofBlock_respelled h, ActionDefinition.ofBlock_respelled h]

/-! ## Main result -/

/-- **A string of words stands for the list of the words**: whatever words a string is written from,
it is read as the list of these, and in a block it may stand where the list stands.  Every string is
written from the words that it is read as, and from no others. -/
theorem words_stand_for_list :
    (∀ text ws, (∀ w ∈ ws, IsWord w) → WrittenFrom ws text →
      ∀ position, (Value.string text).wordsOrArray position = .ok ws) ∧
    (∀ b pairs, List.Forall₂ Pair.Respelled b.pairs pairs →
      Definition.ofBlock { b with pairs } = Definition.ofBlock b) ∧
    ∀ text position, ∃ ws, (Value.string text).wordsOrArray position = .ok ws ∧
      (∀ w ∈ ws, IsWord w) ∧ WrittenFrom ws text ∧
      ∀ others, (∀ w ∈ others, IsWord w) → WrittenFrom others text → others = ws := by
  refine ⟨fun text ws hwords hwritten position => ?_, fun b pairs h => ?_,
    fun text position => ?_⟩
  · exact Value.wordsOrArray_of_writtenFrom hwords hwritten position
  · exact Definition.ofBlock_respelled h
  · obtain ⟨hwords, hwritten⟩ := Text.words_eq_iff.mp (rfl : Text.words text = Text.words text)
    refine ⟨Text.words text, rfl, hwords, hwritten, fun others hothers hother => ?_⟩
    exact (Text.words_of_writtenFrom hothers hother).symm

/-- The words of a command. -/
def makeCommand : List String := ["sh", "-c\x0b", "make"]

/-- The command in one string: a vertical tab belongs to its word, and a line end does not. -/
def makeLine : String := "\t sh  -c\x0b make\r\n"

/-- An action that runs what the value says. -/
def runsBlock (runs : Value) : Block :=
  ⟨"action", "build", ⟨1, 1⟩, [⟨"uses", .string "docker://alpine", ⟨2, 3⟩⟩, ⟨"runs", runs, ⟨3, 3⟩⟩]⟩

theorem words_stand_for_list_makeLine :
    (∀ w ∈ makeCommand, IsWord w) ∧ WrittenFrom makeCommand makeLine ∧
      (Value.string makeLine).wordsOrArray none = .ok makeCommand ∧
      Definition.ofBlock (runsBlock (.array makeCommand)) =
        Definition.ofBlock (runsBlock (.string makeLine)) := by
  obtain ⟨hread, hblock, -⟩ := words_stand_for_list
  have hwords : ∀ w ∈ makeCommand, IsWord w := by
    have hall : ∀ w ∈ makeCommand, w ≠ "" ∧ ∀ c ∈ w.toList, c ∉ Text.separators := by
      simp [makeCommand, Text.separators]
    exact fun w hw => ⟨(hall w hw).1, (hall w hw).2⟩
  have hwritten : WrittenFrom makeCommand makeLine := by
    have hrun : ∀ run ∈ [['\t', ' '], [' ', ' '], [' '], ['\r', '\n']], Text.IsRun run := by
      simp [Text.IsRun, Text.separators]
    have hend : Text.Joined ["make"] _ := .last "make"
    have hjoined : Text.Joined makeCommand _ :=
      .more (hrun [' ', ' '] (by decide)) (by decide)
        (.more (hrun [' '] (by decide)) (by decide) hend)
    exact ⟨['\t', ' '], _, ['\r', '\n'], hrun _ (by decide), hjoined, hrun _ (by decide),
      by decide +kernel⟩
  refine ⟨hwords, hwritten, hread makeLine makeCommand hwords hwritten none,
    hblock (runsBlock (.string makeLine)) (runsBlock (.array makeCommand)).pairs ?_⟩
  exact .cons (.same _) (.cons (.words _ (by decide) hwords hwritten) .nil)

end ContainerFlow
