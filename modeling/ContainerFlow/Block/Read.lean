/-
ContainerFlow.Block.Read — reading tokens as blocks.

The grammar of workflow files, over tokens:

* a file is a list of blocks;
* a block is the name `workflow` or `action`, a string, and pairs between braces;
* a pair is a name, an equals sign and a value;
* a value is a string; or strings between brackets, with commas between them and perhaps one after
  the last; or pairs of a name and a string between braces, each perhaps followed by a comma.

Every reader takes the tokens that are left and gives back what it read with the tokens after it, or
else what it waited for and the token that stands there instead (`none` at the end).  Each of them
uses up tokens (`length_lt_of_readValue` and its like), which is why reading a file ends.
-/
import ContainerFlow.Block
import ContainerFlow.Token.Scan

namespace ContainerFlow

/-- What was waited for, and the token that was found in its place. -/
structure Unexpected where
  wanted : Expectation
  found : Option Token
  deriving DecidableEq, Repr

/-- What was read, and the tokens after it. -/
abbrev Reading (α : Type) := Except Unexpected (α × List Token)

/-! ## Values -/

/-- The items of an array, from behind its left bracket to behind its right one. -/
def readItems : List Token → Reading (List String)
  | ⟨.symbol .rightBracket, _⟩ :: rest => .ok ([], rest)
  | ⟨.string item, _⟩ :: ⟨.symbol .comma, _⟩ :: rest =>
    match readItems rest with
    | .ok (items, left) => .ok (item :: items, left)
    | .error e => .error e
  | ⟨.string item, _⟩ :: ⟨.symbol .rightBracket, _⟩ :: rest => .ok ([item], rest)
  | ⟨.string _, _⟩ :: rest => .error ⟨.symbol .rightBracket, rest.head?⟩
  | tokens => .error ⟨.string, tokens.head?⟩

/-- The entries of a map, from behind its left brace to behind its right one. -/
def readEntries : List Token → Reading (List (String × String))
  | ⟨.symbol .rightBrace, _⟩ :: rest => .ok ([], rest)
  | ⟨.name key, _⟩ :: ⟨.symbol .equals, _⟩ :: ⟨.string text, _⟩ :: ⟨.symbol .comma, _⟩ :: rest =>
    match readEntries rest with
    | .ok (entries, left) => .ok ((key, text) :: entries, left)
    | .error e => .error e
  | ⟨.name key, _⟩ :: ⟨.symbol .equals, _⟩ :: ⟨.string text, _⟩ :: rest =>
    match readEntries rest with
    | .ok (entries, left) => .ok ((key, text) :: entries, left)
    | .error e => .error e
  | ⟨.name _, _⟩ :: ⟨.symbol .equals, _⟩ :: rest => .error ⟨.string, rest.head?⟩
  | ⟨.name _, _⟩ :: rest => .error ⟨.symbol .equals, rest.head?⟩
  | tokens => .error ⟨.name, tokens.head?⟩

/-- A value. -/
def readValue : List Token → Reading Value
  | ⟨.string text, _⟩ :: rest => .ok (.string text, rest)
  | ⟨.symbol .leftBracket, _⟩ :: rest =>
    match readItems rest with
    | .ok (items, left) => .ok (.array items, left)
    | .error e => .error e
  | ⟨.symbol .leftBrace, _⟩ :: rest =>
    match readEntries rest with
    | .ok (entries, left) => .ok (.map (Bindings.ofList entries), left)
    | .error e => .error e
  | tokens => .error ⟨.value, tokens.head?⟩

theorem length_lt_of_readItems {tokens left : List Token} {items : List String}
    (h : readItems tokens = .ok (items, left)) : left.length < tokens.length := by
  fun_induction readItems tokens generalizing items with
  | case1 => cases h; simp
  | case2 _ _ _ rest items' left' hr ih =>
    cases h
    have := ih hr
    simp only [List.length_cons]
    omega
  | case3 => cases h
  | case4 =>
    cases h
    simp only [List.length_cons]
    omega
  | case5 => cases h
  | case6 => cases h

theorem length_lt_of_readEntries {tokens left : List Token} {entries : List (String × String)}
    (h : readEntries tokens = .ok (entries, left)) : left.length < tokens.length := by
  fun_induction readEntries tokens generalizing entries with
  | case1 => cases h; simp
  | case2 _ _ _ _ _ _ rest entries' left' hr ih =>
    cases h
    have := ih hr
    simp only [List.length_cons]
    omega
  | case3 => cases h
  | case4 _ _ _ _ _ rest _ entries' left' hr ih =>
    cases h
    have := ih hr
    simp only [List.length_cons]
    omega
  | case5 => cases h
  | case6 => cases h
  | case7 => cases h
  | case8 => cases h

theorem length_lt_of_readValue {tokens left : List Token} {value : Value}
    (h : readValue tokens = .ok (value, left)) : left.length < tokens.length := by
  unfold readValue at h
  split at h
  · cases h; simp
  · split at h
    · next hr =>
      cases h
      have := length_lt_of_readItems hr
      simp only [List.length_cons]
      omega
    · cases h
  · split at h
    · next hr =>
      cases h
      have := length_lt_of_readEntries hr
      simp only [List.length_cons]
      omega
    · cases h
  · cases h

/-! ## Blocks -/

/-- The pairs of a block, from behind its left brace to behind its right one. -/
def readPairs (tokens : List Token) : Reading (List Pair) :=
  match tokens with
  | ⟨.symbol .rightBrace, _⟩ :: rest => .ok ([], rest)
  | ⟨.name key, position⟩ :: ⟨.symbol .equals, _⟩ :: rest =>
    match _h : readValue rest with
    | .ok (value, left) =>
      match readPairs left with
      | .ok (pairs, left) => .ok (⟨key, value, position⟩ :: pairs, left)
      | .error e => .error e
    | .error e => .error e
  | ⟨.name _, _⟩ :: rest => .error ⟨.symbol .equals, rest.head?⟩
  | tokens => .error ⟨.name, tokens.head?⟩
termination_by tokens.length
decreasing_by
  have := length_lt_of_readValue _h
  simp only [List.length_cons]
  omega

theorem length_lt_of_readPairs {tokens left : List Token} {pairs : List Pair}
    (h : readPairs tokens = .ok (pairs, left)) : left.length < tokens.length := by
  fun_induction readPairs tokens generalizing pairs with
  | case1 => cases h; simp
  | case2 key position _ rest value left' hv pairs' left'' hp ih =>
    cases h
    have := ih hp
    have := length_lt_of_readValue hv
    simp only [List.length_cons]
    omega
  | case3 => cases h
  | case4 => cases h
  | case5 => cases h
  | case6 => cases h

/-- A block. -/
def readBlock : List Token → Reading Block
  | ⟨.name kind, position⟩ :: rest =>
    if kind = Block.workflowKind ∨ kind = Block.actionKind then
      match rest with
      | ⟨.string name, _⟩ :: ⟨.symbol .leftBrace, _⟩ :: rest =>
        match readPairs rest with
        | .ok (pairs, left) => .ok (⟨kind, name, position, pairs⟩, left)
        | .error e => .error e
      | ⟨.string _, _⟩ :: rest => .error ⟨.symbol .leftBrace, rest.head?⟩
      | rest => .error ⟨.string, rest.head?⟩
    else .error ⟨.blockHead, some ⟨.name kind, position⟩⟩
  | tokens => .error ⟨.blockHead, tokens.head?⟩

theorem length_lt_of_readBlock {tokens left : List Token} {block : Block}
    (h : readBlock tokens = .ok (block, left)) : left.length < tokens.length := by
  unfold readBlock at h
  split at h
  · split at h
    · split at h
      · split at h
        · next hp =>
          cases h
          have := length_lt_of_readPairs hp
          simp only [List.length_cons]
          omega
        · cases h
      · cases h
      · cases h
    · cases h
  · cases h

/-- The blocks of a file. -/
def readBlocks (tokens : List Token) : Except Unexpected (List Block) :=
  match tokens with
  | [] => .ok []
  | token :: rest =>
    match _h : readBlock (token :: rest) with
    | .ok (block, left) =>
      match readBlocks left with
      | .ok blocks => .ok (block :: blocks)
      | .error e => .error e
    | .error e => .error e
termination_by tokens.length
decreasing_by exact length_lt_of_readBlock _h

/-! ## Texts -/

/-- The blocks of the tokens of a text that ends at `finish`. -/
def Block.ofTokens (tokens : List Token) (finish : Position) : Except Fault (List Block) :=
  match readBlocks tokens with
  | .ok blocks => .ok blocks
  | .error ⟨wanted, some token⟩ =>
    .error (.atPosition (.malformed (.unexpectedLexeme wanted (some token.lexeme))) token.position)
  | .error ⟨wanted, none⟩ =>
    .error (.atPosition (.malformed (.unexpectedLexeme wanted none)) finish)

/-- The blocks of a text.  The whole text is scanned first, so a place at which no token starts is
reported before any block that makes no sense. -/
def Block.ofText (text : String) : Except Fault (List Block) :=
  match scan text with
  | ⟨tokens, .finished finish⟩ => Block.ofTokens tokens finish
  | ⟨_, .stopped why position⟩ => .error (.atPosition (.malformed why) position)

end ContainerFlow
