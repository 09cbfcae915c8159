/-
ContainerFlow.Proofs.Culprit.Place — places among the blocks of a file,
and the tokens that stand there.

A place is the head of a block or the key of one of its pairs, told by
what comes before it: the blocks before the block, the pairs before the
pair.  `Place.Names` says which token stands there, by the rules of the
grammar.  Every place of a file has such a token, it spells the kind of
the block or the key of the pair, and it gives the place its position
(`exists_names`).
-/
import Mathlib
import ContainerFlow.Proofs.Block.Grammar

namespace ContainerFlow

/-! ## Places -/

/-- A place in a block: its head, or the key of a pair that stands behind others. -/
inductive Spot where
  | head
  | key (earlier : List Pair) (pair : Pair)
  deriving DecidableEq, Repr

namespace Spot

variable (b : Block)

/-- The block has such a place. -/
def IsIn : Spot → Prop
  | .head => True
  | .key earlier pair => ∃ later, b.pairs = earlier ++ pair :: later

/-- The name that stands at the place. -/
def word : Spot → String
  | .head => b.kind
  | .key _ pair => pair.key

/-- The position that the block, or the pair, has kept. -/
def position : Spot → Position
  | .head => b.position
  | .key _ pair => pair.position

end Spot

/-- A place among the blocks of a file: a place in a block that stands behind others. -/
structure Place where
  before : List Block
  block : Block
  spot : Spot
  deriving DecidableEq, Repr

namespace Place

/-- These are blocks with such a place. -/
def IsIn (blocks : List Block) (place : Place) : Prop :=
  (∃ after, blocks = place.before ++ place.block :: after) ∧ place.spot.IsIn place.block

/-- The name that stands at the place. -/
def word (place : Place) : String := place.spot.word place.block

/-- The position that the block, or the pair, has kept. -/
def position (place : Place) : Position := place.spot.position place.block

end Place

/-! ## Tokens at places -/

/-- Among the tokens of a block this one stands at the place: it is the first, or the first of those
that write the pair. -/
def Spot.Names (tokens : List Token) (t : Token) : Spot → Prop
  | .head => ∃ rest, tokens = t :: rest
  | .key earlier pair => ∃ kind title brace us rest vs,
      tokens = kind :: title :: brace :: us ++ (t :: rest) ++ vs ∧
        Many WritesPair us earlier ∧ WritesPair (t :: rest) pair

/-- Among the tokens of a file this one stands at the place. -/
def Place.Names (tokens : List Token) (t : Token) (place : Place) : Prop :=
  ∃ us ts vs, tokens = us ++ ts ++ vs ∧ WritesFile us place.before ∧
    WritesBlock ts place.block ∧ place.spot.Names ts t

/-- What writes several phrases writes those before one of them, the one, and those behind it. -/
theorem Many.exists_split {α : Type} {phrase : List Token → α → Prop} {tokens : List Token}
    {before after : List α} {a : α} (h : Many phrase tokens (before ++ a :: after)) :
    ∃ us ts vs, tokens = us ++ ts ++ vs ∧ Many phrase us before ∧ phrase ts a ∧
      Many phrase vs after := by
  induction before generalizing tokens with
  | nil =>
    cases h with
    | cons first rest => exact ⟨[], _, _, rfl, .nil, first, rest⟩
  | cons b before ih =>
    cases h with
    | cons first rest =>
      obtain ⟨us, ts, vs, rfl, hbefore, ha, hafter⟩ := ih rest
      exact ⟨_, ts, vs, by simp, .cons first hbefore, ha, hafter⟩

variable {tokens : List Token}

theorem WritesPair.exists_cons {pair : Pair} (h : WritesPair tokens pair) :
    ∃ t rest, tokens = t :: rest ∧ t = ⟨.name pair.key, pair.position⟩ := by
  cases h with
  | mk value => exact ⟨_, _, rfl, rfl⟩

/-- A block is written by its kind, two more tokens, its pairs, and one more token. -/
theorem WritesBlock.exists_cons {b : Block} (h : WritesBlock tokens b) :
    ∃ title brace us vs, tokens = ⟨.name b.kind, b.position⟩ :: title :: brace :: us ++ vs ∧
      Many WritesPair us b.pairs := by
  cases h with
  | mk kind_eq quotes inner => exact ⟨_, _, _, _, rfl, inner⟩

theorem WritesBlock.kind_eq {b : Block} (h : WritesBlock tokens b) :
    b.kind = Block.workflowKind ∨ b.kind = Block.actionKind := by
  cases h with
  | mk kind_eq quotes inner => exact kind_eq

/-- The blocks of a file are of the two kinds. -/
theorem WritesFile.kind_eq {blocks : List Block} (h : WritesFile tokens blocks) :
    ∀ b ∈ blocks, b.kind = Block.workflowKind ∨ b.kind = Block.actionKind := by
  induction h with
  | nil => simp
  | cons first _ ih => exact List.forall_mem_cons.mpr ⟨first.kind_eq, ih⟩

theorem Spot.exists_names {b : Block} {spot : Spot} (h : WritesBlock tokens b)
    (hspot : spot.IsIn b) :
    ∃ t, spot.Names tokens t ∧ t = ⟨.name (spot.word b), spot.position b⟩ := by
  obtain ⟨title, brace, us, vs, rfl, hpairs⟩ := h.exists_cons
  cases spot with
  | head => exact ⟨_, ⟨_, rfl⟩, rfl⟩
  | key earlier pair =>
    obtain ⟨later, hb⟩ := hspot
    rw [hb] at hpairs
    obtain ⟨before, ts, after, rfl, hbefore, hpair, -⟩ := hpairs.exists_split
    obtain ⟨t, rest, rfl, rfl⟩ := hpair.exists_cons
    exact ⟨_, ⟨⟨.name b.kind, b.position⟩, title, brace, before, rest, after ++ vs, by simp,
      hbefore, hpair⟩, rfl⟩

theorem Spot.Names.mem {t : Token} {spot : Spot} (h : spot.Names tokens t) : t ∈ tokens := by
  cases spot with
  | head =>
    obtain ⟨_, rfl⟩ := h
    simp
  | key earlier pair =>
    obtain ⟨_, _, _, _, _, _, rfl, -⟩ := h
    simp

theorem Place.Names.mem {t : Token} {place : Place} (h : place.Names tokens t) : t ∈ tokens := by
  obtain ⟨us, ts, vs, rfl, -, -, hnames⟩ := h
  simp [hnames.mem]

/-- At every place of a file stands a token, which spells what stands there and has its position. -/
theorem Place.exists_names {blocks : List Block} {place : Place} (h : WritesFile tokens blocks)
    (hplace : place.IsIn blocks) :
    ∃ t, place.Names tokens t ∧ t = ⟨.name place.word, place.position⟩ := by
  obtain ⟨⟨after, rfl⟩, hspot⟩ := hplace
  obtain ⟨us, ts, vs, rfl, hbefore, hblock, -⟩ := Many.exists_split h
  obtain ⟨t, hnames, ht⟩ := Spot.exists_names hblock hspot
  exact ⟨t, ⟨us, ts, vs, rfl, hbefore, hblock, hnames⟩, ht⟩

end ContainerFlow
