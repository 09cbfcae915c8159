/-
ContainerFlow.Proofs.Block.Grammar — the grammar of workflow files, and
that the reader accepts what it derives and nothing else.

The grammar is given rule by rule, as relations between rows of tokens
and what they write:

    file   = block*
    block  = ("workflow" | "action") STRING "{" pair* "}"
    pair   = NAME "=" value
    value  = STRING | "[" items "]" | "{" entry* "}"
    items  = (STRING ("," STRING)* ","?)?
    entry  = NAME "=" STRING ","?

For every rule there are two lemmas about its reader: what is read is
written by the tokens that are used up (`writes_of_readValue` and its
like), and whatever tokens write is read, also when more tokens follow
(`readValue_of_writes` and its like).  Arrays and maps differ: a comma
stands between the items of an array and may stand behind the last one,
while an entry of a map may be followed by one or not.

The main statement is `ofText_eq_ok_iff_writes`.
-/
import ContainerFlow.Proofs.Bindings
import ContainerFlow.Proofs.Compile

namespace ContainerFlow

/-! ## The grammar -/

/-- The token is a string, and `text` is what it has between its two quotes. -/
def Token.Quotes (t : Token) (text : String) : Prop :=
  (∃ body, t.lexeme = .string body) ∧ t.lexeme.chars = '\x22' :: text.toList ++ ['\x22']

/-- Any number of phrases of a kind, one behind the other. -/
inductive Many {α : Type} (phrase : List Token → α → Prop) : List Token → List α → Prop where
  | nil : Many phrase [] []
  | cons {ts us : List Token} {a : α} {as : List α} (first : phrase ts a)
      (rest : Many phrase us as) : Many phrase (ts ++ us) (a :: as)

/-- A comma, or nothing. -/
inductive WritesComma : List Token → Prop where
  | absent : WritesComma []
  | present {p : Position} : WritesComma [⟨.symbol .comma, p⟩]

/-- A comma and a string. -/
inductive WritesNextItem : List Token → String → Prop where
  | mk {p : Position} {t : Token} {text : String} (quotes : t.Quotes text) :
      WritesNextItem [⟨.symbol .comma, p⟩, t] text

/-- The items of an array. -/
inductive WritesItems : List Token → List String → Prop where
  | nil : WritesItems [] []
  | cons {t : Token} {text : String} {ts us : List Token} {texts : List String}
      (quotes : t.Quotes text) (more : Many WritesNextItem ts texts) (comma : WritesComma us) :
      WritesItems (t :: ts ++ us) (text :: texts)

/-- An entry of a map. -/
inductive WritesEntry : List Token → String × String → Prop where
  | mk {name text : String} {p q : Position} {t : Token} {us : List Token}
      (quotes : t.Quotes text) (comma : WritesComma us) :
      WritesEntry (⟨.name name, p⟩ :: ⟨.symbol .equals, q⟩ :: t :: us) (name, text)

/-- A value. -/
inductive WritesValue : List Token → Value → Prop where
  | string {t : Token} {text : String} (quotes : t.Quotes text) : WritesValue [t] (.string text)
  | array {p q : Position} {ts : List Token} {items : List String} (inner : WritesItems ts items) :
      WritesValue (⟨.symbol .leftBracket, p⟩ :: ts ++ [⟨.symbol .rightBracket, q⟩]) (.array items)
  | map {p q : Position} {ts : List Token} {entries : List (String × String)} {b : Bindings}
      (inner : Many WritesEntry ts entries) (gathers : b.Gathers entries) :
      WritesValue (⟨.symbol .leftBrace, p⟩ :: ts ++ [⟨.symbol .rightBrace, q⟩]) (.map b)

/-- A pair, which stands where its key does. -/
inductive WritesPair : List Token → Pair → Prop where
  | mk {key : String} {p q : Position} {ts : List Token} {v : Value} (value : WritesValue ts v) :
      WritesPair (⟨.name key, p⟩ :: ⟨.symbol .equals, q⟩ :: ts) ⟨key, v, p⟩

/-- A block, which stands where its kind does. -/
inductive WritesBlock : List Token → Block → Prop where
  | mk {kind name : String} {p q r : Position} {t : Token} {ts : List Token} {pairs : List Pair}
      (kind_eq : kind = "workflow" ∨ kind = "action") (quotes : t.Quotes name)
      (inner : Many WritesPair ts pairs) :
      WritesBlock
        (⟨.name kind, p⟩ :: t :: ⟨.symbol .leftBrace, q⟩ :: ts ++ [⟨.symbol .rightBrace, r⟩])
        ⟨kind, name, p, pairs⟩

/-- A file. -/
def WritesFile : List Token → List Block → Prop := Many WritesBlock

theorem Token.quotes_iff {t : Token} {text : String} :
    t.Quotes text ↔ ∃ p, t = ⟨.string text, p⟩ := by
  obtain ⟨lexeme, position⟩ := t
  constructor
  · rintro ⟨⟨body, rfl⟩, hchars⟩
    simp only [Lexeme.chars, List.cons_append, List.cons.injEq, true_and,
      List.append_cancel_right_eq, String.toList_inj] at hchars
    exact ⟨position, by rw [hchars]⟩
  · rintro ⟨p, ⟨⟩⟩
    exact ⟨⟨text, rfl⟩, rfl⟩

theorem Token.quotes (text : String) (p : Position) : Token.Quotes ⟨.string text, p⟩ text :=
  Token.quotes_iff.mpr ⟨p, rfl⟩

variable {tokens ts us left : List Token}

/-! ## Arrays -/

/-- One more item in front of those of an array. -/
theorem WritesItems.push {t : Token} {text : String} {p : Position} {texts : List String}
    (quotes : t.Quotes text) (h : WritesItems ts texts) :
    WritesItems (t :: ⟨.symbol .comma, p⟩ :: ts) (text :: texts) := by
  cases h with
  | nil => exact .cons quotes .nil .present
  | cons next more comma => exact .cons quotes (.cons (.mk next) more) comma

theorem writes_of_readItems {items : List String} (h : readItems tokens = .ok (items, left)) :
    ∃ used p, tokens = used ++ ⟨.symbol .rightBracket, p⟩ :: left ∧ WritesItems used items := by
  fun_induction readItems tokens generalizing items with
  | case1 p rest =>
    cases h
    exact ⟨[], p, rfl, .nil⟩
  | case2 item p q rest items' left' hrest ih =>
    cases h
    obtain ⟨used, r, rfl, hused⟩ := ih hrest
    exact ⟨_, r, rfl, hused.push (Token.quotes item p)⟩
  | case3 => cases h
  | case4 item p q rest =>
    cases h
    exact ⟨[⟨.string item, p⟩], q, rfl, .cons (Token.quotes item p) .nil .absent⟩
  | case5 => cases h
  | case6 => cases h

theorem readItems_of_writes {items : List String} (h : WritesItems ts items) (p : Position)
    (left : List Token) :
    readItems (ts ++ ⟨.symbol .rightBracket, p⟩ :: left) = .ok (items, left) := by
  cases h with
  | nil => rfl
  | @cons t text ts us texts quotes more comma =>
    -- Along the commas: each makes the item behind it the first of those that are left.
    induction more generalizing t text with
    | nil =>
      obtain ⟨q, rfl⟩ := Token.quotes_iff.mp quotes
      cases comma <;> rfl
    | cons first _ ih =>
      obtain ⟨q, rfl⟩ := Token.quotes_iff.mp quotes
      cases first with
      | mk next =>
        have hrest := ih next
        simp only [List.cons_append, List.nil_append, List.append_assoc] at hrest ⊢
        rw [readItems, hrest]

/-! ## Maps -/

theorem writes_of_readEntries {entries : List (String × String)}
    (h : readEntries tokens = .ok (entries, left)) :
    ∃ used p, tokens = used ++ ⟨.symbol .rightBrace, p⟩ :: left ∧
      Many WritesEntry used entries := by
  fun_induction readEntries tokens generalizing entries with
  | case1 p rest =>
    cases h
    exact ⟨[], p, rfl, .nil⟩
  | case2 key p q text r s rest entries' left' hrest ih =>
    cases h
    obtain ⟨used, p', rfl, hused⟩ := ih hrest
    exact ⟨_, p', rfl, .cons (.mk (Token.quotes text r) .present) hused⟩
  | case3 => cases h
  | case4 key p q text r rest _ entries' left' hrest ih =>
    cases h
    obtain ⟨used, p', rfl, hused⟩ := ih hrest
    exact ⟨_, p', rfl, .cons (.mk (Token.quotes text r) .absent) hused⟩
  | case5 => cases h
  | case6 => cases h
  | case7 => cases h
  | case8 => cases h

/-- Entries do not start with a comma, so that a comma in front of them is the one that may follow
the entry before. -/
theorem head_ne_comma_of_entries {entries : List (String × String)}
    (h : Many WritesEntry ts entries) (p q : Position) (left rest : List Token) :
    ts ++ ⟨.symbol .rightBrace, p⟩ :: left ≠ ⟨.symbol .comma, q⟩ :: rest := by
  cases h with
  | nil => simp
  | cons first _ =>
    cases first
    simp

theorem readEntries_of_writes {entries : List (String × String)} (h : Many WritesEntry ts entries)
    (p : Position) (left : List Token) :
    readEntries (ts ++ ⟨.symbol .rightBrace, p⟩ :: left) = .ok (entries, left) := by
  induction h with
  | nil => rfl
  | cons first rest ih =>
    cases first with
    | mk quotes comma =>
      obtain ⟨q, rfl⟩ := Token.quotes_iff.mp quotes
      rw [List.append_assoc]
      cases comma with
      | absent =>
        simp only [List.cons_append, List.nil_append]
        rw [readEntries, ih]
        exact fun _ _ => head_ne_comma_of_entries rest _ _ _ _
      | present =>
        simp only [List.cons_append, List.nil_append]
        rw [readEntries, ih]

/-! ## Values -/

theorem writes_of_readValue {v : Value} (h : readValue tokens = .ok (v, left)) :
    ∃ used, tokens = used ++ left ∧ WritesValue used v := by
  unfold readValue at h
  split at h
  · next text p rest =>
    cases h
    exact ⟨[_], rfl, .string (Token.quotes text p)⟩
  · next p rest =>
    split at h
    · next hitems =>
      cases h
      obtain ⟨used, q, rfl, hused⟩ := writes_of_readItems hitems
      exact ⟨⟨.symbol .leftBracket, p⟩ :: used ++ [⟨.symbol .rightBracket, q⟩], by simp,
        .array hused⟩
    · cases h
  · next p rest =>
    split at h
    · next hentries =>
      cases h
      obtain ⟨used, q, rfl, hused⟩ := writes_of_readEntries hentries
      exact ⟨⟨.symbol .leftBrace, p⟩ :: used ++ [⟨.symbol .rightBrace, q⟩], by simp,
        .map hused (Bindings.gathers_ofList _)⟩
    · cases h
  · cases h

theorem readValue_of_writes {v : Value} (h : WritesValue ts v) (left : List Token) :
    readValue (ts ++ left) = .ok (v, left) := by
  cases h with
  | string quotes =>
    obtain ⟨p, rfl⟩ := Token.quotes_iff.mp quotes
    rfl
  | array inner =>
    simp only [List.cons_append, List.append_assoc, List.nil_append]
    rw [readValue, readItems_of_writes inner]
  | map inner gathers =>
    simp only [List.cons_append, List.append_assoc, List.nil_append]
    rw [readValue, readEntries_of_writes inner, Bindings.gathers_iff.mp gathers]

/-! ## Blocks -/

theorem writes_of_readPairs {pairs : List Pair} (h : readPairs tokens = .ok (pairs, left)) :
    ∃ used p, tokens = used ++ ⟨.symbol .rightBrace, p⟩ :: left ∧ Many WritesPair used pairs := by
  fun_induction readPairs tokens generalizing pairs with
  | case1 p rest =>
    cases h
    exact ⟨[], p, rfl, .nil⟩
  | case2 key p q rest v left' hv pairs' left'' hpairs ih =>
    cases h
    obtain ⟨value, rfl, hvalue⟩ := writes_of_readValue hv
    obtain ⟨used, r, rfl, hused⟩ := ih hpairs
    exact ⟨(⟨.name key, p⟩ :: ⟨.symbol .equals, q⟩ :: value) ++ used, r, by simp,
      .cons (.mk hvalue) hused⟩
  | case3 => cases h
  | case4 => cases h
  | case5 => cases h
  | case6 => cases h

/-- The pairs of a block are its first pair and those after it. -/
theorem readPairs_cons (key : String) (p q : Position) (rest : List Token) :
    readPairs (⟨.name key, p⟩ :: ⟨.symbol .equals, q⟩ :: rest) =
      Except.bind (readValue rest) fun (value, left) =>
        (readPairs left).map fun (pairs, left) => (⟨key, value, p⟩ :: pairs, left) := by
  rw [readPairs]
  split
  · next value left hvalue =>
    rw [hvalue]
    show _ = (readPairs left).map _
    cases readPairs left <;> rfl
  · next hvalue =>
    rw [hvalue]
    rfl

theorem readPairs_of_ok {key : String} {p q : Position} {v : Value}
    (h : readValue tokens = .ok (v, left)) :
    readPairs (⟨.name key, p⟩ :: ⟨.symbol .equals, q⟩ :: tokens) =
      (readPairs left).map fun (pairs, left) => (⟨key, v, p⟩ :: pairs, left) := by
  rw [readPairs_cons, h]
  rfl

theorem readPairs_of_writes {pairs : List Pair} (h : Many WritesPair ts pairs) (p : Position)
    (left : List Token) :
    readPairs (ts ++ ⟨.symbol .rightBrace, p⟩ :: left) = .ok (pairs, left) := by
  induction h with
  | nil => rw [List.nil_append, readPairs]
  | cons first _ ih =>
    cases first with
    | mk value =>
      simp only [List.cons_append, List.append_assoc]
      rw [readPairs_of_ok (readValue_of_writes value _), ih]
      rfl

theorem writes_of_readBlock {b : Block} (h : readBlock tokens = .ok (b, left)) :
    ∃ used, tokens = used ++ left ∧ WritesBlock used b := by
  unfold readBlock at h
  split at h
  · next kind p _ =>
    split at h
    · next hkind =>
      split at h
      · next name q r _ =>
        split at h
        · next hpairs =>
          cases h
          obtain ⟨used, s, rfl, hused⟩ := writes_of_readPairs hpairs
          exact ⟨⟨.name kind, p⟩ :: ⟨.string name, q⟩ :: ⟨.symbol .leftBrace, r⟩ :: used
            ++ [⟨.symbol .rightBrace, s⟩], by simp, .mk hkind (Token.quotes name q) hused⟩
        · cases h
      · cases h
      · cases h
    · cases h
  · cases h

theorem readBlock_of_writes {b : Block} (h : WritesBlock ts b) (left : List Token) :
    readBlock (ts ++ left) = .ok (b, left) := by
  cases h with
  | @mk kind _ _ _ _ _ _ _ kind_eq quotes inner =>
    obtain ⟨p, rfl⟩ := Token.quotes_iff.mp quotes
    have hkind : kind = Block.workflowKind ∨ kind = Block.actionKind := kind_eq
    simp only [List.cons_append, List.append_assoc, List.nil_append]
    rw [readBlock, if_pos hkind]
    simp only [readPairs_of_writes inner]

/-! ## Files -/

theorem writes_of_readBlocks {blocks : List Block} (h : readBlocks tokens = .ok blocks) :
    WritesFile tokens blocks := by
  fun_induction readBlocks tokens generalizing blocks with
  | case1 =>
    cases h
    exact .nil
  | case2 token rest b left hb blocks' hblocks ih =>
    cases h
    obtain ⟨used, htokens, hused⟩ := writes_of_readBlock hb
    rw [htokens]
    exact .cons hused (ih hblocks)
  | case3 => cases h
  | case4 => cases h

theorem readBlocks_of_writes {blocks : List Block} (h : WritesFile ts blocks) :
    readBlocks ts = .ok blocks := by
  induction h with
  | nil => rw [readBlocks]
  | cons first _ ih =>
    rw [readBlocks_of_ok (readBlock_of_writes first _), ih]
    rfl

theorem readBlocks_eq_ok_iff {blocks : List Block} :
    readBlocks tokens = .ok blocks ↔ WritesFile tokens blocks :=
  ⟨writes_of_readBlocks, readBlocks_of_writes⟩

/-! ## Main result -/

/-- What is no file is reported as malformed, at a position. -/
theorem exists_malformed_of_error {text : String} {fault : Fault}
    (h : Block.ofText text = .error fault) :
    ∃ why position, fault = .atPosition (.malformed why) position := by
  unfold Block.ofText Block.ofTokens at h
  split at h
  · split at h <;> cases h <;> exact ⟨_, _, rfl⟩
  · cases h
    exact ⟨_, _, rfl⟩

/-- **The reader accepts exactly the grammar**: a text is read as blocks when it is nothing but
tokens and these write the blocks, and in every other case it is reported as malformed, at a
position. -/
theorem ofText_eq_ok_iff_writes (text : String) :
    (∀ blocks, Block.ofText text = .ok blocks ↔
      ∃ tokens finish, scan text = ⟨tokens, .finished finish⟩ ∧ WritesFile tokens blocks) ∧
    ((∃ blocks, Block.ofText text = .ok blocks) ∨
      ∃ why position, Block.ofText text = .error (.atPosition (.malformed why) position)) := by
  constructor
  · intro blocks
    rw [Block.ofText_eq_ok_iff]
    simp only [readBlocks_eq_ok_iff]
  · cases h : Block.ofText text with
    | ok blocks => exact .inl ⟨blocks, rfl⟩
    | error fault =>
      obtain ⟨why, position, rfl⟩ := exists_malformed_of_error h
      exact .inr ⟨why, position, rfl⟩

end ContainerFlow
