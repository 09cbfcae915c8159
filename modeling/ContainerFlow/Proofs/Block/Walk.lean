/-
ContainerFlow.Proofs.Block.Walk — reading blocks by place.

The readers take tokens off a list.  Here they are written once more over
a fixed row, the tokens with a mark for the end of the text behind them,
and a place in it that goes forward: every look at the row may find that
the place is not in it, and every loop has a number of turns.  The two
ways of reading are the same (`walk_eq`): the mark is never passed, so
the place is always in the row, and every turn uses up a token.
-/
import Mathlib
import ContainerFlow.Proofs.Block.Grammar

namespace ContainerFlow

/-! ## Reading by place -/

/-- The text of a string. -/
def Token.string? : Token → Option String
  | ⟨.string text, _⟩ => some text
  | _ => none

/-- A name, and where it stands. -/
def Token.name? : Token → Option (String × Position)
  | ⟨.name text, position⟩ => some (text, position)
  | _ => none

/-- Whether the token is this symbol. -/
def Token.symbol? (s : Symbol) (t : Token) : Option Unit :=
  if t.lexeme = .symbol s then some () else none

namespace Walk

/-- Why a walk stops before it is through. -/
inductive Stop where
  /-- The place is not in the row. -/
  | outside (place : Nat)
  /-- There are no turns left. -/
  | unfinished
  /-- Something else was waited for. -/
  | unexpected (e : Unexpected)
  deriving DecidableEq, Repr

/-- The tokens, and the end of the text behind them. -/
def row (tokens : List Token) : List (Option Token) := tokens.map some ++ [none]

variable (r : List (Option Token))

/-- What stands at a place. -/
def peek (place : Nat) : Except Stop (Option Token) :=
  match r[place]? with
  | some t => .ok t
  | none => .error (.outside place)

/-- What stands at a place, and the place to go on from, which is never behind the end. -/
def take (place : Nat) : Except Stop (Option Token × Nat) := do
  let t ← peek r place
  return (t, if t.isSome then place + 1 else place)

/-- Whether a symbol stands at a place. -/
def isAt (s : Symbol) (place : Nat) : Except Stop Bool := do
  let t ← peek r place
  return t.map (·.lexeme) = some (.symbol s)

/-- Takes what is selected, and nothing else. -/
def expect {α : Type} (select : Token → Option α) (wanted : Expectation) (place : Nat) :
    Except Stop (α × Nat) := do
  let (t, later) ← take r place
  match t.bind select with
  | some a => return (a, later)
  | none => throw (.unexpected ⟨wanted, t⟩)

/-- Takes a symbol. -/
def expectSymbol (s : Symbol) (place : Nat) : Except Stop Nat := do
  let ((), place) ← expect r (Token.symbol? s) (.symbol s) place
  return place

/-- The items of an array, from behind its left bracket. -/
def items : Nat → Nat → Except Stop (List String × Nat)
  | 0, _ => .error .unfinished
  | turns + 1, place => do
    if ← isAt r .rightBracket place then
      return ([], ← expectSymbol r .rightBracket place)
    else
      let (item, place) ← expect r Token.string? .string place
      if ← isAt r .comma place then
        let (_, place) ← take r place
        let (later, place) ← items turns place
        return (item :: later, place)
      else
        return ([item], ← expectSymbol r .rightBracket place)

/-- The entries of a map, from behind its left brace. -/
def entries : Nat → Nat → Except Stop (List (String × String) × Nat)
  | 0, _ => .error .unfinished
  | turns + 1, place => do
    if ← isAt r .rightBrace place then
      return ([], ← expectSymbol r .rightBrace place)
    else
      let ((key, _), place) ← expect r Token.name? .name place
      let place ← expectSymbol r .equals place
      let (text, place) ← expect r Token.string? .string place
      if ← isAt r .comma place then
        let (_, place) ← take r place
        let (later, place) ← entries turns place
        return ((key, text) :: later, place)
      else
        let (later, place) ← entries turns place
        return ((key, text) :: later, place)

/-- A value. -/
def value (turns place : Nat) : Except Stop (Value × Nat) := do
  let t ← peek r place
  if (t.bind Token.string?).isSome then
    let (text, place) ← expect r Token.string? .string place
    return (.string text, place)
  else if ← isAt r .leftBracket place then
    let place ← expectSymbol r .leftBracket place
    let (found, place) ← items r turns place
    return (.array found, place)
  else if ← isAt r .leftBrace place then
    let place ← expectSymbol r .leftBrace place
    let (found, place) ← entries r turns place
    return (.map (.ofList found), place)
  else throw (.unexpected ⟨.value, t⟩)

/-- The pairs of a block, from behind its left brace. -/
def pairs : Nat → Nat → Except Stop (List Pair × Nat)
  | 0, _ => .error .unfinished
  | turns + 1, place => do
    if ← isAt r .rightBrace place then
      return ([], ← expectSymbol r .rightBrace place)
    else
      let ((key, position), place) ← expect r Token.name? .name place
      let place ← expectSymbol r .equals place
      let (v, place) ← value r turns place
      let (later, place) ← pairs turns place
      return (⟨key, v, position⟩ :: later, place)

/-- A block. -/
def block (turns place : Nat) : Except Stop (Block × Nat) := do
  let (t, place) ← take r place
  match t.bind Token.name? with
  | some (kind, position) =>
    if kind = Block.workflowKind ∨ kind = Block.actionKind then
      let (name, place) ← expect r Token.string? .string place
      let place ← expectSymbol r .leftBrace place
      let (found, place) ← pairs r turns place
      return (⟨kind, name, position, found⟩, place)
    else throw (.unexpected ⟨.blockHead, t⟩)
  | none => throw (.unexpected ⟨.blockHead, t⟩)

/-- The blocks from a place on. -/
def blocks : Nat → Nat → Except Stop (List Block)
  | 0, _ => .error .unfinished
  | turns + 1, place => do
    match ← peek r place with
    | none => return []
    | some _ =>
      let (b, place) ← block r turns place
      let later ← blocks turns place
      return b :: later

end Walk

/-- The blocks of a row of tokens, read by place. -/
def walk (tokens : List Token) : Except Walk.Stop (List Block) :=
  Walk.blocks (Walk.row tokens) (tokens.length + 1) 0

namespace Walk

/-! ## Places -/

/-- Where the tokens stand that are left. -/
def placeOf (tokens rest : List Token) : Nat := tokens.length - rest.length

/-- What a reader comes to, by place. -/
def lift {α : Type} (tokens : List Token) : Reading α → Except Stop (α × Nat)
  | .ok (a, left) => .ok (a, placeOf tokens left)
  | .error e => .error (.unexpected e)

variable {tokens rest : List Token} {t : Token}

theorem peek_placeOf (h : rest <:+ tokens) :
    peek (row tokens) (placeOf tokens rest) = .ok rest.head? := by
  obtain ⟨before, rfl⟩ := h
  have hplace : placeOf (before ++ rest) rest = before.length := by simp [placeOf]
  have hrow : (row (before ++ rest))[before.length]? = some rest.head? := by
    cases rest <;> simp [row]
  rw [peek, hplace, hrow]

theorem placeOf_cons (h : t :: rest <:+ tokens) :
    placeOf tokens (t :: rest) + 1 = placeOf tokens rest := by
  have hle := h.length_le
  rw [List.length_cons] at hle
  simp only [placeOf, List.length_cons]
  omega

theorem take_placeOf (h : t :: rest <:+ tokens) :
    take (row tokens) (placeOf tokens (t :: rest)) = .ok (some t, placeOf tokens rest) := by
  rw [take, peek_placeOf h, ← placeOf_cons h]
  rfl

theorem isAt_placeOf (s : Symbol) (h : rest <:+ tokens) :
    isAt (row tokens) s (placeOf tokens rest) =
      .ok (rest.head?.map (·.lexeme) = some (.symbol s) : Bool) := by
  rw [isAt, peek_placeOf h]
  rfl

theorem expect_of_some {α : Type} {select : Token → Option α} {a : α} (wanted : Expectation)
    (h : t :: rest <:+ tokens) (ht : select t = some a) :
    expect (row tokens) select wanted (placeOf tokens (t :: rest)) =
      .ok (a, placeOf tokens rest) := by
  rw [expect, take_placeOf h]
  show (match (some t).bind select with | some a => _ | none => _) = _
  rw [Option.bind_some, ht]
  rfl

theorem expect_of_none {α : Type} {select : Token → Option α} (wanted : Expectation)
    (h : rest <:+ tokens) (hrest : rest.head?.bind select = none) :
    expect (row tokens) select wanted (placeOf tokens rest) =
      .error (.unexpected ⟨wanted, rest.head?⟩) := by
  rw [expect, take, peek_placeOf h]
  show (match rest.head?.bind select with | some a => _ | none => _) = _
  rw [hrest]
  rfl

theorem expect_string {text : String} {p : Position} (wanted : Expectation)
    (h : ⟨.string text, p⟩ :: rest <:+ tokens) :
    expect (row tokens) Token.string? wanted (placeOf tokens (⟨.string text, p⟩ :: rest)) =
      .ok (text, placeOf tokens rest) :=
  expect_of_some wanted h rfl

theorem expect_name {text : String} {p : Position} (wanted : Expectation)
    (h : ⟨.name text, p⟩ :: rest <:+ tokens) :
    expect (row tokens) Token.name? wanted (placeOf tokens (⟨.name text, p⟩ :: rest)) =
      .ok ((text, p), placeOf tokens rest) :=
  expect_of_some wanted h rfl

theorem expectSymbol_placeOf {s : Symbol} {p : Position}
    (h : ⟨.symbol s, p⟩ :: rest <:+ tokens) :
    expectSymbol (row tokens) s (placeOf tokens (⟨.symbol s, p⟩ :: rest)) =
      .ok (placeOf tokens rest) := by
  have hs : Token.symbol? s ⟨.symbol s, p⟩ = some () := if_pos rfl
  rw [expectSymbol, expect_of_some _ h hs]
  rfl

theorem expectSymbol_of_none {s : Symbol} (h : rest <:+ tokens)
    (hrest : ∀ p later, rest = ⟨.symbol s, p⟩ :: later → False) :
    expectSymbol (row tokens) s (placeOf tokens rest) =
      .error (.unexpected ⟨.symbol s, rest.head?⟩) := by
  have hnone : rest.head?.bind (Token.symbol? s) = none := by
    cases rest with
    | nil => rfl
    | cons t later =>
      refine if_neg fun hlexeme => hrest t.position later ?_
      rw [← hlexeme]
  rw [expectSymbol, expect_of_none _ h hnone]
  rfl

theorem isAt_true {s : Symbol} {p : Position} (h : ⟨.symbol s, p⟩ :: rest <:+ tokens) :
    isAt (row tokens) s (placeOf tokens (⟨.symbol s, p⟩ :: rest)) = .ok true := by
  rw [isAt_placeOf s h]
  simp

theorem isAt_false {s : Symbol} (h : rest <:+ tokens)
    (hrest : ∀ p later, rest = ⟨.symbol s, p⟩ :: later → False) :
    isAt (row tokens) s (placeOf tokens rest) = .ok false := by
  rw [isAt_placeOf s h]
  cases rest with
  | nil => rfl
  | cons t later =>
    have hne : t.lexeme ≠ .symbol s := fun hlexeme => hrest t.position later (by rw [← hlexeme])
    simp [hne]

theorem string?_head?_eq_none
    (hrest : ∀ text p later, rest = ⟨.string text, p⟩ :: later → False) :
    rest.head?.bind Token.string? = none := by
  cases rest with
  | nil => rfl
  | cons t later =>
    obtain ⟨l, p⟩ := t
    cases l with
    | string text => exact (hrest text p later rfl).elim
    | _ => rfl

theorem name?_head?_eq_none (hrest : ∀ text p later, rest = ⟨.name text, p⟩ :: later → False) :
    rest.head?.bind Token.name? = none := by
  cases rest with
  | nil => rfl
  | cons t later =>
    obtain ⟨l, p⟩ := t
    cases l with
    | name text => exact (hrest text p later rfl).elim
    | _ => rfl

/-! ## Readers -/

theorem ok_bind {α β : Type} (a : α) (f : α → Except Stop β) : (Except.ok a >>= f) = f a := rfl

/-- What is left behind the first token is left of the tokens. -/
theorem suffix_of_cons (h : t :: rest <:+ tokens) : rest <:+ tokens :=
  (List.suffix_cons t rest).trans h

/-- As long as there are tokens there is a turn. -/
theorem exists_turn {n turns : Nat} (h : n < turns) : ∃ more, turns = more + 1 ∧ n ≤ more :=
  ⟨turns - 1, by omega, by omega⟩

/-- One turn of the loop over items. -/
theorem items_turn {item : String} {p q : Position} (turns : Nat)
    (h : ⟨.string item, p⟩ :: ⟨.symbol .comma, q⟩ :: rest <:+ tokens) :
    items (row tokens) (turns + 1)
        (placeOf tokens (⟨.string item, p⟩ :: ⟨.symbol .comma, q⟩ :: rest)) =
      (items (row tokens) turns (placeOf tokens rest)).map fun found =>
        (item :: found.1, found.2) := by
  have hcomma := suffix_of_cons h
  rw [items]
  simp only [isAt_false h (by simp), expect_string _ h, isAt_true hcomma, take_placeOf hcomma,
    ok_bind, Bool.false_eq_true, if_false, if_true]
  cases items (row tokens) turns (placeOf tokens rest) <;> rfl

theorem items_eq {turns : Nat} (h : rest <:+ tokens) (hturns : rest.length < turns) :
    items (row tokens) turns (placeOf tokens rest) = lift tokens (readItems rest) := by
  fun_induction readItems rest generalizing turns with
  | case1 p rest =>
    obtain ⟨turns, rfl, -⟩ := exists_turn hturns
    simp only [items, isAt_true h, expectSymbol_placeOf h, ok_bind, if_true]
    rfl
  | case2 item p q rest found left hrest ih =>
    obtain ⟨turns, rfl, hle⟩ := exists_turn hturns
    rw [items_turn turns h, ih (suffix_of_cons (suffix_of_cons h)) (by simp at hle; omega), hrest]
    rfl
  | case3 item p q rest e hrest ih =>
    obtain ⟨turns, rfl, hle⟩ := exists_turn hturns
    rw [items_turn turns h, ih (suffix_of_cons (suffix_of_cons h)) (by simp at hle; omega), hrest]
    rfl
  | case4 item p q rest =>
    obtain ⟨turns, rfl, -⟩ := exists_turn hturns
    have hbracket := suffix_of_cons h
    have hcomma : isAt (row tokens) .comma (placeOf tokens (⟨.symbol .rightBracket, q⟩ :: rest)) =
        .ok false := isAt_false hbracket (by simp)
    simp only [items, isAt_false h (by simp), expect_string _ h, hcomma,
      expectSymbol_placeOf hbracket, ok_bind, Bool.false_eq_true, if_false]
    rfl
  | case5 item p rest hcomma hbracket =>
    obtain ⟨turns, rfl, -⟩ := exists_turn hturns
    have hrest := suffix_of_cons h
    simp only [items, isAt_false h (by simp), expect_string _ h, isAt_false hrest hcomma,
      expectSymbol_of_none hrest hbracket, ok_bind, Bool.false_eq_true, if_false]
    rfl
  | case6 rest hbracket _ _ hstring =>
    obtain ⟨turns, rfl, -⟩ := exists_turn hturns
    simp only [items, isAt_false h hbracket, expect_of_none _ h (string?_head?_eq_none hstring),
      ok_bind, Bool.false_eq_true, if_false]
    rfl

/-- One turn of the loop over entries, with a comma behind the entry. -/
theorem entries_turn_comma {key text : String} {p₁ p₂ p₃ p₄ : Position} (turns : Nat)
    (h : ⟨.name key, p₁⟩ :: ⟨.symbol .equals, p₂⟩ :: ⟨.string text, p₃⟩ ::
      ⟨.symbol .comma, p₄⟩ :: rest <:+ tokens) :
    entries (row tokens) (turns + 1) (placeOf tokens (⟨.name key, p₁⟩ :: ⟨.symbol .equals, p₂⟩ ::
        ⟨.string text, p₃⟩ :: ⟨.symbol .comma, p₄⟩ :: rest)) =
      (entries (row tokens) turns (placeOf tokens rest)).map fun found =>
        ((key, text) :: found.1, found.2) := by
  have hequals := suffix_of_cons h
  have htext := suffix_of_cons hequals
  have hcomma := suffix_of_cons htext
  rw [entries]
  simp only [isAt_false h (by simp), expect_name _ h, expectSymbol_placeOf hequals,
    expect_string _ htext, isAt_true hcomma, take_placeOf hcomma, ok_bind, Bool.false_eq_true,
    if_false, if_true]
  cases entries (row tokens) turns (placeOf tokens rest) <;> rfl

/-- One turn of the loop over entries, with no comma behind the entry. -/
theorem entries_turn {key text : String} {p₁ p₂ p₃ : Position} (turns : Nat)
    (h : ⟨.name key, p₁⟩ :: ⟨.symbol .equals, p₂⟩ :: ⟨.string text, p₃⟩ :: rest <:+ tokens)
    (hcomma : ∀ q later, rest = ⟨.symbol .comma, q⟩ :: later → False) :
    entries (row tokens) (turns + 1) (placeOf tokens (⟨.name key, p₁⟩ :: ⟨.symbol .equals, p₂⟩ ::
        ⟨.string text, p₃⟩ :: rest)) =
      (entries (row tokens) turns (placeOf tokens rest)).map fun found =>
        ((key, text) :: found.1, found.2) := by
  have hequals := suffix_of_cons h
  have htext := suffix_of_cons hequals
  rw [entries]
  simp only [isAt_false h (by simp), expect_name _ h, expectSymbol_placeOf hequals,
    expect_string _ htext, isAt_false (suffix_of_cons htext) hcomma, ok_bind, Bool.false_eq_true,
    if_false]
  cases entries (row tokens) turns (placeOf tokens rest) <;> rfl

theorem entries_eq {turns : Nat} (h : rest <:+ tokens) (hturns : rest.length < turns) :
    entries (row tokens) turns (placeOf tokens rest) = lift tokens (readEntries rest) := by
  fun_induction readEntries rest generalizing turns with
  | case1 p rest =>
    obtain ⟨turns, rfl, -⟩ := exists_turn hturns
    simp only [entries, isAt_true h, expectSymbol_placeOf h, ok_bind, if_true]
    rfl
  | case2 key p₁ p₂ text p₃ p₄ rest found left hrest ih =>
    obtain ⟨turns, rfl, hle⟩ := exists_turn hturns
    have hlater := suffix_of_cons (suffix_of_cons (suffix_of_cons (suffix_of_cons h)))
    rw [entries_turn_comma turns h, ih hlater (by simp at hle; omega), hrest]
    rfl
  | case3 key p₁ p₂ text p₃ p₄ rest e hrest ih =>
    obtain ⟨turns, rfl, hle⟩ := exists_turn hturns
    have hlater := suffix_of_cons (suffix_of_cons (suffix_of_cons (suffix_of_cons h)))
    rw [entries_turn_comma turns h, ih hlater (by simp at hle; omega), hrest]
    rfl
  | case4 key p₁ p₂ text p₃ rest hcomma found left hrest ih =>
    obtain ⟨turns, rfl, hle⟩ := exists_turn hturns
    have hlater := suffix_of_cons (suffix_of_cons (suffix_of_cons h))
    rw [entries_turn turns h hcomma, ih hlater (by simp at hle; omega), hrest]
    rfl
  | case5 key p₁ p₂ text p₃ rest hcomma e hrest ih =>
    obtain ⟨turns, rfl, hle⟩ := exists_turn hturns
    have hlater := suffix_of_cons (suffix_of_cons (suffix_of_cons h))
    rw [entries_turn turns h hcomma, ih hlater (by simp at hle; omega), hrest]
    rfl
  | case6 key p₁ p₂ rest _ hstring =>
    obtain ⟨turns, rfl, -⟩ := exists_turn hturns
    have hequals := suffix_of_cons h
    simp only [entries, isAt_false h (by simp), expect_name _ h, expectSymbol_placeOf hequals,
      expect_of_none _ (suffix_of_cons hequals) (string?_head?_eq_none hstring), ok_bind,
      Bool.false_eq_true, if_false]
    rfl
  | case7 key p rest _ _ hequals =>
    obtain ⟨turns, rfl, -⟩ := exists_turn hturns
    simp only [entries, isAt_false h (by simp), expect_name _ h,
      expectSymbol_of_none (suffix_of_cons h) hequals, ok_bind, Bool.false_eq_true, if_false]
    rfl
  | case8 rest hbrace _ _ _ hname =>
    obtain ⟨turns, rfl, -⟩ := exists_turn hturns
    simp only [entries, isAt_false h hbrace, expect_of_none _ h (name?_head?_eq_none hname),
      ok_bind, Bool.false_eq_true, if_false]
    rfl

theorem value_eq {turns : Nat} (h : rest <:+ tokens) (hturns : rest.length ≤ turns) :
    value (row tokens) turns (placeOf tokens rest) = lift tokens (readValue rest) := by
  unfold readValue
  split
  · next text p rest =>
    have hstring : ((⟨.string text, p⟩ :: rest : List Token).head?.bind Token.string?).isSome := rfl
    rw [value, peek_placeOf h, ok_bind, if_pos hstring, expect_string _ h]
    rfl
  · next p rest =>
    have hitems := items_eq (suffix_of_cons h) hturns
    rw [value, peek_placeOf h, ok_bind, if_neg (by simp [Token.string?]), isAt_true h, ok_bind,
      if_pos rfl, expectSymbol_placeOf h, ok_bind, hitems]
    cases readItems rest <;> rfl
  · next p rest =>
    have hentries := entries_eq (suffix_of_cons h) hturns
    rw [value, peek_placeOf h, ok_bind, if_neg (by simp [Token.string?]),
      isAt_false h (by simp), ok_bind, if_neg Bool.false_ne_true, isAt_true h, ok_bind,
      if_pos rfl, expectSymbol_placeOf h, ok_bind, hentries]
    cases readEntries rest <;> rfl
  · next hstring hbracket hbrace =>
    have hnone : ¬ (rest.head?.bind Token.string?).isSome := by
      rw [string?_head?_eq_none hstring]
      simp
    rw [value, peek_placeOf h, ok_bind, if_neg hnone, isAt_false h hbracket, ok_bind,
      if_neg Bool.false_ne_true, isAt_false h hbrace, ok_bind, if_neg Bool.false_ne_true]
    rfl

theorem suffix_of_readValue {v : Value} {left : List Token} (h : readValue rest = .ok (v, left)) :
    left <:+ rest := by
  obtain ⟨used, rfl, -⟩ := writes_of_readValue h
  exact List.suffix_append used left

/-- One turn of the loop over pairs. -/
theorem pairs_turn {key : String} {p q : Position} {turns : Nat}
    (h : ⟨.name key, p⟩ :: ⟨.symbol .equals, q⟩ :: rest <:+ tokens)
    (hturns : rest.length ≤ turns) :
    pairs (row tokens) (turns + 1)
        (placeOf tokens (⟨.name key, p⟩ :: ⟨.symbol .equals, q⟩ :: rest)) =
      lift tokens (readValue rest) >>= fun v =>
        (pairs (row tokens) turns v.2).map fun found => (⟨key, v.1, p⟩ :: found.1, found.2) := by
  have hequals := suffix_of_cons h
  rw [pairs]
  simp only [isAt_false h (by simp), expect_name _ h, expectSymbol_placeOf hequals,
    value_eq (suffix_of_cons hequals) hturns, ok_bind, Bool.false_eq_true, if_false]
  cases lift tokens (readValue rest) with
  | error why => rfl
  | ok v =>
    simp only [ok_bind]
    cases pairs (row tokens) turns v.2 <;> rfl

theorem pairs_eq {turns : Nat} (h : rest <:+ tokens) (hturns : rest.length < turns) :
    pairs (row tokens) turns (placeOf tokens rest) = lift tokens (readPairs rest) := by
  fun_induction readPairs rest generalizing turns with
  | case1 p rest =>
    obtain ⟨turns, rfl, -⟩ := exists_turn hturns
    simp only [pairs, isAt_true h, expectSymbol_placeOf h, ok_bind, if_true]
    rfl
  | case2 key p q rest v left hv found left' hfound ih =>
    obtain ⟨turns, rfl, hle⟩ := exists_turn hturns
    rw [List.length_cons, List.length_cons] at hle
    have hshort := length_lt_of_readValue hv
    have hleft := (suffix_of_readValue hv).trans (suffix_of_cons (suffix_of_cons h))
    rw [pairs_turn h (by omega), hv, lift, ok_bind, ih hleft (by omega), hfound]
    rfl
  | case3 key p q rest v left hv e hfound ih =>
    obtain ⟨turns, rfl, hle⟩ := exists_turn hturns
    rw [List.length_cons, List.length_cons] at hle
    have hshort := length_lt_of_readValue hv
    have hleft := (suffix_of_readValue hv).trans (suffix_of_cons (suffix_of_cons h))
    rw [pairs_turn h (by omega), hv, lift, ok_bind, ih hleft (by omega), hfound]
    rfl
  | case4 key p q rest e hv =>
    obtain ⟨turns, rfl, hle⟩ := exists_turn hturns
    rw [List.length_cons, List.length_cons] at hle
    rw [pairs_turn h (by omega), hv]
    rfl
  | case5 key p rest hequals =>
    obtain ⟨turns, rfl, -⟩ := exists_turn hturns
    simp only [pairs, isAt_false h (by simp), expect_name _ h,
      expectSymbol_of_none (suffix_of_cons h) hequals, ok_bind, Bool.false_eq_true, if_false]
    rfl
  | case6 rest hbrace _ hname =>
    obtain ⟨turns, rfl, -⟩ := exists_turn hturns
    simp only [pairs, isAt_false h hbrace, expect_of_none _ h (name?_head?_eq_none hname), ok_bind,
      Bool.false_eq_true, if_false]
    rfl

/-! ## Blocks -/

theorem block_eq {turns : Nat} (h : t :: rest <:+ tokens) (hturns : rest.length ≤ turns) :
    block (row tokens) turns (placeOf tokens (t :: rest)) =
      lift tokens (readBlock (t :: rest)) := by
  have hrest := suffix_of_cons h
  obtain ⟨l, p⟩ := t
  rw [block, take_placeOf h, ok_bind]
  cases l with
  | string text => rfl
  | symbol s => rfl
  | name kind =>
    unfold readBlock
    simp only [Option.bind_some, Token.name?]
    split
    · split
      · next name q r later =>
        have hbrace := suffix_of_cons hrest
        rw [List.length_cons, List.length_cons] at hturns
        rw [expect_string _ hrest, ok_bind, expectSymbol_placeOf hbrace, ok_bind,
          pairs_eq (suffix_of_cons hbrace) (by omega)]
        cases readPairs later <;> rfl
      · next text q later hbrace =>
        rw [expect_string _ hrest, ok_bind, expectSymbol_of_none (suffix_of_cons hrest) hbrace]
        rfl
      · next hstring =>
        rw [expect_of_none _ hrest (string?_head?_eq_none hstring)]
        rfl
    · rfl

theorem suffix_of_readBlock {b : Block} {left : List Token} (h : readBlock rest = .ok (b, left)) :
    left <:+ rest := by
  obtain ⟨used, rfl, -⟩ := writes_of_readBlock h
  exact List.suffix_append used left

/-- What reading a whole file comes to. -/
def liftAll : Except Unexpected (List Block) → Except Stop (List Block)
  | .ok found => .ok found
  | .error e => .error (.unexpected e)

/-- One turn of the loop over blocks. -/
theorem blocks_turn {turns : Nat} (h : t :: rest <:+ tokens) (hturns : rest.length ≤ turns) :
    blocks (row tokens) (turns + 1) (placeOf tokens (t :: rest)) =
      lift tokens (readBlock (t :: rest)) >>= fun b =>
        (blocks (row tokens) turns b.2).map (b.1 :: ·) := by
  rw [blocks, peek_placeOf h, ok_bind, List.head?_cons]
  simp only [block_eq h hturns]
  cases lift tokens (readBlock (t :: rest)) with
  | error why => rfl
  | ok b =>
    simp only [ok_bind]
    cases blocks (row tokens) turns b.2 <;> rfl

theorem blocks_eq {turns : Nat} (h : rest <:+ tokens) (hturns : rest.length < turns) :
    blocks (row tokens) turns (placeOf tokens rest) = liftAll (readBlocks rest) := by
  fun_induction readBlocks rest generalizing turns with
  | case1 =>
    obtain ⟨turns, rfl, -⟩ := exists_turn hturns
    rw [blocks, peek_placeOf h]
    rfl
  | case2 t rest b left hb found hfound ih =>
    obtain ⟨turns, rfl, hle⟩ := exists_turn hturns
    rw [List.length_cons] at hle
    have hshort := length_lt_of_readBlock hb
    rw [List.length_cons] at hshort
    rw [blocks_turn h (by omega), hb, lift, ok_bind,
      ih ((suffix_of_readBlock hb).trans h) (by omega), hfound]
    rfl
  | case3 t rest b left hb e hfound ih =>
    obtain ⟨turns, rfl, hle⟩ := exists_turn hturns
    rw [List.length_cons] at hle
    have hshort := length_lt_of_readBlock hb
    rw [List.length_cons] at hshort
    rw [blocks_turn h (by omega), hb, lift, ok_bind,
      ih ((suffix_of_readBlock hb).trans h) (by omega), hfound]
    rfl
  | case4 t rest e hb =>
    obtain ⟨turns, rfl, hle⟩ := exists_turn hturns
    rw [List.length_cons] at hle
    rw [blocks_turn h (by omega), hb]
    rfl

end Walk

/-- Every place that a walk looks at is in the row, and no loop runs out of turns: a walk comes to
the blocks that are read, or stops where the reader does. -/
theorem walk_eq (tokens : List Token) : walk tokens = Walk.liftAll (readBlocks tokens) := by
  have hplace : Walk.placeOf tokens tokens = 0 := Nat.sub_self _
  rw [walk, ← hplace, Walk.blocks_eq (List.suffix_refl tokens) (Nat.lt_succ_self _)]

end ContainerFlow
