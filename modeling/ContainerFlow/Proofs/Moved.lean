/-
ContainerFlow.Proofs.Moved — positions are carried along and never looked
at.

`moved f` puts `f p` in the place of every position `p` of a token, a
block, a definition or a fault.  What is read from moved tokens is what is
read otherwise, moved (`ofTokens_moved`); so it is with the definitions of
moved blocks (`Definition.ofBlocks_moved`) and with the workflow of moved
definitions (`Workflow.ofDefinitions_moved`), which has no positions left.
This holds of every `f`: no step compares two positions or computes one.

With `Position.forget` for `f`, two rows of tokens that differ in their
positions only become one row, so they are read alike, positions apart
(`ofTokens_alike`).
-/
import Mathlib
import ContainerFlow.Proofs.Block.Awaiting
import ContainerFlow.Proofs.Block.Grammar

namespace ContainerFlow

variable {α β γ : Type} (f : Position → Position)

/-! ## What has positions -/

/-- A result, with what is wrong and what was made changed. -/
def mapBoth {ε ε' : Type} (onError : ε → ε') (onOk : α → β) : Except ε α → Except ε' β
  | .ok a => .ok (onOk a)
  | .error e => .error (onError e)

@[simp] theorem mapBoth_ok {ε ε' : Type} (onError : ε → ε') (onOk : α → β) (a : α) :
    mapBoth onError onOk (.ok a) = .ok (onOk a) := rfl

@[simp] theorem mapBoth_error {ε ε' : Type} (onError : ε → ε') (onOk : α → β) (e : ε) :
    mapBoth onError onOk (.error e) = .error (onError e) := rfl

def Token.moved (t : Token) : Token := ⟨t.lexeme, f t.position⟩

def Unexpected.moved (e : Unexpected) : Unexpected := ⟨e.wanted, e.found.map (Token.moved f)⟩

def Pair.moved (pair : Pair) : Pair := { pair with position := f pair.position }

def Block.moved (b : Block) : Block :=
  { b with position := f b.position, pairs := b.pairs.map (Pair.moved f) }

def WorkflowDefinition.moved (d : WorkflowDefinition) : WorkflowDefinition :=
  { d with position := f d.position }

def ActionDefinition.moved (d : ActionDefinition) : ActionDefinition :=
  { d with position := f d.position }

def Definition.moved : Definition → Definition
  | .workflow d => .workflow (d.moved f)
  | .action d => .action (d.moved f)

/-- The cause of a failure stays. -/
def Fault.moved : Fault → Fault
  | .failure ⟨cause, position⟩ => .failure ⟨cause, position.map f⟩
  | .defect d => .defect d

@[simp] theorem Token.moved_mk (l : Lexeme) (p : Position) : Token.moved f ⟨l, p⟩ = ⟨l, f p⟩ := rfl

@[simp] theorem Unexpected.moved_mk (wanted : Expectation) (found : Option Token) :
    Unexpected.moved f ⟨wanted, found⟩ = ⟨wanted, found.map (Token.moved f)⟩ := rfl

@[simp] theorem Fault.moved_atPosition (cause : Cause) (p : Position) :
    (Fault.atPosition cause p).moved f = .atPosition cause (f p) := rfl

@[simp] theorem Fault.moved_ofCause (cause : Cause) :
    (Fault.ofCause cause).moved f = .ofCause cause := rfl

/-! ## Reading blocks -/

/-- What was read, moved; `g` moves the thing itself. -/
abbrev Reading.moved (g : α → β) : Reading α → Reading β :=
  mapBoth (Unexpected.moved f) (Prod.map g (List.map (Token.moved f)))

variable {f} in
/-- A lexeme among moved tokens stands among the tokens. -/
theorem exists_of_map_moved {tokens rest : List Token} {l : Lexeme} {p : Position}
    (h : tokens.map (Token.moved f) = ⟨l, p⟩ :: rest) : ∃ q more, tokens = ⟨l, q⟩ :: more := by
  obtain ⟨⟨lexeme, q⟩, more, rfl, ht, -⟩ := List.map_eq_cons_iff.mp h
  cases ht
  exact ⟨q, more, rfl⟩

theorem readItems_moved (tokens : List Token) :
    readItems (tokens.map (Token.moved f)) = Reading.moved f id (readItems tokens) := by
  fun_induction readItems tokens with
  | case1 p rest => simp [readItems]
  | case2 item p q rest items left hr ih => simp [readItems, ih, hr]
  | case3 item p q rest e hr ih => simp [readItems, ih, hr]
  | case4 item p q rest => simp [readItems]
  | case5 item p rest hcomma hbracket =>
    rw [List.map_cons, Token.moved_mk, readItems]
    · simp
    all_goals grind [exists_of_map_moved]
  | case6 tokens =>
    rw [readItems]
    · simp
    all_goals grind [exists_of_map_moved]

theorem readEntries_moved (tokens : List Token) :
    readEntries (tokens.map (Token.moved f)) = Reading.moved f id (readEntries tokens) := by
  fun_induction readEntries tokens with
  | case1 p rest => simp [readEntries]
  | case2 key p q text r s rest entries left hr ih => simp [readEntries, ih, hr]
  | case3 key p q text r s rest e hr ih => simp [readEntries, ih, hr]
  | case4 key p q text r rest hcomma entries left hr ih =>
    simp only [List.map_cons, Token.moved_mk]
    rw [readEntries, ih, hr]
    · simp
    · grind [exists_of_map_moved]
  | case5 key p q text r rest hcomma e hr ih =>
    simp only [List.map_cons, Token.moved_mk]
    rw [readEntries, ih, hr]
    · simp
    · grind [exists_of_map_moved]
  | case6 key p q rest =>
    simp only [List.map_cons, Token.moved_mk]
    rw [readEntries]
    · simp
    all_goals grind [exists_of_map_moved]
  | case7 key p rest =>
    rw [List.map_cons, Token.moved_mk, readEntries]
    · simp
    all_goals grind [exists_of_map_moved]
  | case8 tokens =>
    rw [readEntries]
    · simp
    all_goals grind [exists_of_map_moved]

theorem readValue_moved (tokens : List Token) :
    readValue (tokens.map (Token.moved f)) = Reading.moved f id (readValue tokens) := by
  fun_cases readValue tokens with
  | case1 text p rest => simp [readValue]
  | case2 p rest items left hr => simp [readValue, readItems_moved, hr]
  | case3 p rest e hr => simp [readValue, readItems_moved, hr]
  | case4 p rest entries left hr => simp [readValue, readEntries_moved, hr]
  | case5 p rest e hr => simp [readValue, readEntries_moved, hr]
  | case6 tokens =>
    rw [readValue]
    · simp
    all_goals grind [exists_of_map_moved]

theorem readPairs_moved (tokens : List Token) :
    readPairs (tokens.map (Token.moved f)) =
      Reading.moved f (List.map (Pair.moved f)) (readPairs tokens) := by
  fun_induction readPairs tokens with
  | case1 p rest => simp [readPairs]
  | case2 key p q rest value left hvalue pairs left' hpairs ih =>
    simp only [List.map_cons, Token.moved_mk]
    rw [readPairs_cons, readValue_moved, hvalue]
    simp [Except.bind, Except.map, ih, hpairs, Pair.moved]
  | case3 key p q rest value left hvalue e hpairs ih =>
    simp only [List.map_cons, Token.moved_mk]
    rw [readPairs_cons, readValue_moved, hvalue]
    simp [Except.bind, Except.map, ih, hpairs]
  | case4 key p q rest e hvalue =>
    simp only [List.map_cons, Token.moved_mk]
    rw [readPairs_cons, readValue_moved, hvalue]
    rfl
  | case5 key p rest =>
    rw [List.map_cons, Token.moved_mk, readPairs]
    · simp
    all_goals grind [exists_of_map_moved]
  | case6 tokens =>
    rw [readPairs]
    · simp
    all_goals grind [exists_of_map_moved]

theorem readBlock_moved (tokens : List Token) :
    readBlock (tokens.map (Token.moved f)) =
      Reading.moved f (Block.moved f) (readBlock tokens) := by
  fun_cases readBlock tokens with
  | case1 kind p hkind name q r rest pairs left hpairs =>
    simp [readBlock, hkind, readPairs_moved, hpairs, Block.moved]
  | case2 kind p hkind name q r rest e hpairs =>
    simp [readBlock, hkind, readPairs_moved, hpairs]
  | case3 kind p hkind name q rest hbrace =>
    simp only [List.map_cons, Token.moved_mk]
    rw [readBlock, if_pos hkind]
    · simp
    · grind [exists_of_map_moved]
  | case4 kind p hkind rest hhead hname =>
    rw [List.map_cons, Token.moved_mk, readBlock, if_pos hkind]
    · simp
    all_goals grind [exists_of_map_moved]
  | case5 kind p rest hkind => simp [readBlock, hkind]
  | case6 tokens =>
    rw [readBlock]
    · simp
    · grind [exists_of_map_moved]

theorem readBlocks_moved (tokens : List Token) :
    readBlocks (tokens.map (Token.moved f)) =
      mapBoth (Unexpected.moved f) (List.map (Block.moved f)) (readBlocks tokens) := by
  have hfirst (t : Token) (rest : List Token) :
      readBlock (t.moved f :: rest.map (Token.moved f)) =
        Reading.moved f (Block.moved f) (readBlock (t :: rest)) :=
    readBlock_moved f (t :: rest)
  fun_induction readBlocks tokens with
  | case1 => rw [List.map_nil, readBlocks]; rfl
  | case2 t rest b left hblock blocks hblocks ih =>
    rw [List.map_cons, readBlocks_cons, hfirst, hblock]
    simp [Except.bind, Except.map, ih, hblocks]
  | case3 t rest b left hblock e hblocks ih =>
    rw [List.map_cons, readBlocks_cons, hfirst, hblock]
    simp [Except.bind, Except.map, ih, hblocks]
  | case4 t rest e hblock =>
    rw [List.map_cons, readBlocks_cons, hfirst, hblock]
    rfl

/-- The blocks of moved tokens are those of the tokens, moved. -/
theorem ofTokens_moved (tokens : List Token) (finish : Position) :
    Block.ofTokens (tokens.map (Token.moved f)) (f finish) =
      mapBoth (Fault.moved f) (List.map (Block.moved f)) (Block.ofTokens tokens finish) := by
  unfold Block.ofTokens
  rw [readBlocks_moved]
  cases readBlocks tokens with
  | ok blocks => rfl
  | error e =>
    obtain ⟨wanted, found⟩ := e
    cases found <;> rfl

/-! ## Reading definitions -/

/-- Doing one thing after another to what is moved. -/
theorem mapBoth_bind {γ' : Type} {g : α → γ} {h : β → γ'} {x : Except Fault α}
    {k : α → Except Fault β} {k' : γ → Except Fault γ'}
    (hk : ∀ a, k' (g a) = mapBoth (Fault.moved f) h (k a)) :
    (mapBoth (Fault.moved f) g x >>= k') = mapBoth (Fault.moved f) h (x >>= k) := by
  cases x with
  | ok a => exact hk a
  | error fault => rfl

theorem firstRepeat_moved (seen : List String) (pairs : List Pair) :
    firstRepeat seen (pairs.map (Pair.moved f)) = (firstRepeat seen pairs).map (Pair.moved f) := by
  induction pairs generalizing seen with
  | nil => rfl
  | cons pair rest ih =>
    show (if pair.key ∈ seen then some (pair.moved f)
      else firstRepeat (pair.key :: seen) (rest.map (Pair.moved f))) = _
    rw [ih, firstRepeat]
    split <;> rfl

namespace Block

variable (b : Block)

theorem checkDistinct_moved :
    (b.moved f).checkDistinct = mapBoth (Fault.moved f) id b.checkDistinct := by
  have hrepeat : firstRepeat [] (b.moved f).pairs = (firstRepeat [] b.pairs).map (Pair.moved f) :=
    firstRepeat_moved f [] b.pairs
  rw [checkDistinct, hrepeat, checkDistinct]
  cases firstRepeat [] b.pairs <;> rfl

theorem pair?_moved (key : String) :
    (b.moved f).pair? key = (b.pair? key).map (Pair.moved f) :=
  List.find?_map

theorem checkRequired_moved (required : List String) :
    (b.moved f).checkRequired required = mapBoth (Fault.moved f) id (b.checkRequired required) := by
  simp only [checkRequired, pair?_moved, Option.isNone_map]
  cases required.find? fun key => (b.pair? key).isNone <;> rfl

theorem checkKnown_moved (known : List String) :
    (b.moved f).checkKnown known = mapBoth (Fault.moved f) id (b.checkKnown known) := by
  have hfind : (b.moved f).pairs.find? (fun pair => !known.contains pair.key) =
      (b.pairs.find? fun pair => !known.contains pair.key).map (Pair.moved f) :=
    List.find?_map
  rw [checkKnown, hfind, checkKnown]
  cases b.pairs.find? fun pair => !known.contains pair.key <;> rfl

/-- Reading a value uses the position for its fault only. -/
def ReadsValue (read : Value → Option Position → Except Fault α) : Prop :=
  ∀ v p, read v (p.map f) = mapBoth (Fault.moved f) id (read v p)

variable {f b} {read : Value → Option Position → Except Fault α}

theorem optional_moved (hread : ReadsValue f read) (key : String) :
    (b.moved f).optional key read = mapBoth (Fault.moved f) id (b.optional key read) := by
  rw [optional, pair?_moved, optional]
  cases b.pair? key with
  | none => rfl
  | some pair =>
    show (read pair.value ((some pair.position).map f)).map some = _
    rw [hread]
    show _ = mapBoth (Fault.moved f) id ((read pair.value (some pair.position)).map some)
    cases read pair.value (some pair.position) <;> rfl

theorem required_moved (hread : ReadsValue f read) (key : String) :
    (b.moved f).required key read = mapBoth (Fault.moved f) id (b.required key read) := by
  rw [required, pair?_moved, required]
  cases b.pair? key with
  | none => rfl
  | some pair => exact hread pair.value (some pair.position)

end Block

theorem readsValue_asString : Block.ReadsValue f Value.asString := by
  rintro (_ | _ | _) p <;> rfl

theorem readsValue_asArray : Block.ReadsValue f Value.asArray := by
  rintro (_ | _ | _) p <;> rfl

theorem readsValue_asMap : Block.ReadsValue f Value.asMap := by
  rintro (_ | _ | _) p <;> rfl

theorem readsValue_singletonOrArray : Block.ReadsValue f Value.singletonOrArray := by
  rintro (_ | _ | _) p <;> rfl

theorem readsValue_wordsOrArray : Block.ReadsValue f Value.wordsOrArray := by
  rintro (_ | _ | _) p <;> rfl

theorem WorkflowDefinition.ofBlock_moved (b : Block) :
    ofBlock (b.moved f) = mapBoth (Fault.moved f) (WorkflowDefinition.moved f) (ofBlock b) := by
  rw [ofBlock, Block.checkDistinct_moved, Block.checkRequired_moved,
    Block.required_moved (readsValue_asString f), Block.checkKnown_moved,
    Block.required_moved (readsValue_singletonOrArray f)]
  refine mapBoth_bind f fun _ => mapBoth_bind f fun _ => mapBoth_bind f fun trigger =>
    mapBoth_bind f fun resolves => mapBoth_bind f fun _ => ?_
  rfl

theorem ActionDefinition.ofBlock_moved (b : Block) :
    ofBlock (b.moved f) = mapBoth (Fault.moved f) (ActionDefinition.moved f) (ofBlock b) := by
  rw [ofBlock, Block.checkDistinct_moved, Block.checkRequired_moved,
    Block.required_moved (readsValue_asString f),
    Block.optional_moved (readsValue_singletonOrArray f),
    Block.optional_moved (readsValue_wordsOrArray f),
    Block.optional_moved (readsValue_wordsOrArray f),
    Block.optional_moved (readsValue_asMap f),
    Block.optional_moved (readsValue_asArray f), Block.checkKnown_moved]
  refine mapBoth_bind f fun _ => mapBoth_bind f fun _ => mapBoth_bind f fun uses =>
    mapBoth_bind f fun needs => mapBoth_bind f fun runs => mapBoth_bind f fun args =>
    mapBoth_bind f fun env => mapBoth_bind f fun secrets => mapBoth_bind f fun _ => ?_
  rfl

theorem Definition.ofBlock_moved (b : Block) :
    ofBlock (b.moved f) = mapBoth (Fault.moved f) (Definition.moved f) (ofBlock b) := by
  show (if b.kind = Block.workflowKind then (WorkflowDefinition.ofBlock (b.moved f)).map workflow
    else if b.kind = Block.actionKind then (ActionDefinition.ofBlock (b.moved f)).map action
    else .error (.defect (.unknownBlockKind b.kind))) = _
  rw [WorkflowDefinition.ofBlock_moved, ActionDefinition.ofBlock_moved, ofBlock]
  split
  · cases WorkflowDefinition.ofBlock b <;> rfl
  split
  · cases ActionDefinition.ofBlock b <;> rfl
  · rfl

/-- The definitions of moved blocks are those of the blocks, moved. -/
theorem Definition.ofBlocks_moved (blocks : List Block) :
    ofBlocks (blocks.map (Block.moved f)) =
      mapBoth (Fault.moved f) (List.map (Definition.moved f)) (ofBlocks blocks) := by
  induction blocks with
  | nil => rfl
  | cons b rest ih =>
    rw [List.map_cons, ofBlocks, ofBlock_moved, ih]
    exact mapBoth_bind f fun d => mapBoth_bind f fun later => rfl

/-! ## Resolving definitions -/

theorem NameTable.feedActions_moved (table : NameTable) (ds : List Definition) :
    table.feedActions (ds.map (Definition.moved f)) =
      mapBoth (Fault.moved f) id (table.feedActions ds) := by
  fun_induction NameTable.feedActions table ds with
  | case1 => rfl
  | case2 table d rest ih => exact ih
  | case3 table d rest fed hnew ih =>
    show (if fed.inserted then fed.table.feedActions (rest.map (Definition.moved f)) else _) = _
    rw [if_pos hnew, ih]
  | case4 table d rest fed hold =>
    show (if fed.inserted then _ else _) = _
    rw [if_neg hold]
    rfl

theorem NameTable.resolve_moved (table : NameTable) (referrer : String) (p : Position)
    (names : List String) :
    table.resolve referrer (f p) names =
      mapBoth (Fault.moved f) id (table.resolve referrer p names) := by
  induction names with
  | nil => rfl
  | cons name rest ih =>
    rw [resolve, resolve]
    cases table.get? name with
    | none => rfl
    | some id =>
      show (table.resolve referrer (f p) rest >>= _) = _
      rw [ih]
      exact mapBoth_bind f fun _ => rfl

theorem WorkflowDefinition.resolve_moved (table : NameTable) (d : WorkflowDefinition) :
    (d.moved f).resolve table = mapBoth (Fault.moved f) id (d.resolve table) := by
  obtain ⟨name, trigger, resolves, p⟩ := d
  simp only [WorkflowDefinition.moved, resolve, NameTable.resolve_moved]
  cases Trigger.ofName? trigger with
  | none => rfl
  | some trigger => exact mapBoth_bind f fun _ => rfl

theorem ActionDefinition.resolve_moved (table : NameTable) (d : ActionDefinition) :
    (d.moved f).resolve table = mapBoth (Fault.moved f) id (d.resolve table) := by
  show (table.resolve _ (f d.position) d.needs >>= _) = _
  rw [NameTable.resolve_moved]
  exact mapBoth_bind f fun _ => rfl

theorem resolveFrom_moved (table : NameTable) (head? : Option Workflow.Head)
    (ds : List Definition) :
    resolveFrom table head? (ds.map (Definition.moved f)) =
      mapBoth (Fault.moved f) id (resolveFrom table head? ds) := by
  induction ds generalizing head? with
  | nil => rfl
  | cons d rest ih =>
    cases d with
    | workflow d =>
      show (if head?.isSome then _ else
        ((d.moved f).resolve table >>= fun head =>
          resolveFrom table (some head) (rest.map (Definition.moved f)))) = _
      rw [resolveFrom, WorkflowDefinition.resolve_moved]
      split
      · rfl
      · exact mapBoth_bind f fun head => ih (some head)
    | action d =>
      show ((d.moved f).resolve table >>= fun _ =>
        (resolveFrom table head? (rest.map (Definition.moved f)) >>= _)) = _
      rw [ActionDefinition.resolve_moved, ih]
      exact mapBoth_bind f fun _ => mapBoth_bind f fun _ => rfl

/-- The workflow of moved definitions is that of the definitions: it has no positions. -/
theorem Workflow.ofDefinitions_moved (ds : List Definition) :
    ofDefinitions (ds.map (Definition.moved f)) =
      mapBoth (Fault.moved f) id (ofDefinitions ds) := by
  rw [ofDefinitions, NameTable.ofDefinitions, NameTable.feedActions_moved]
  refine mapBoth_bind f fun table => ?_
  rw [id, resolveFrom_moved]
  refine mapBoth_bind f fun resolved => ?_
  obtain ⟨head?, actions⟩ := resolved
  cases head? <;> rfl

/-! ## Positions forgotten -/

/-- Nothing is left of a position. -/
def Position.forget (_ : Position) : Position := start

open Position (forget)

/-- The results are the same, positions apart: both were made alike, with `g` to forget the positions
in what was made, or both are the same fault at some place. -/
def Alike (g : α → β) (x y : Except Fault α) : Prop :=
  mapBoth (Fault.moved forget) g x = mapBoth (Fault.moved forget) g y

theorem map_moved_forget (tokens : List Token) :
    tokens.map (Token.moved forget) = (lexemes tokens).map (Token.mk · .start) := by
  rw [lexemes, List.map_map]
  rfl

/-- Tokens with the same lexemes make up the same blocks. -/
theorem ofTokens_alike {tokens others : List Token} (h : lexemes others = lexemes tokens)
    (finish finish' : Position) :
    Alike (List.map (Block.moved forget)) (Block.ofTokens others finish')
      (Block.ofTokens tokens finish) := by
  rw [Alike, ← ofTokens_moved, ← ofTokens_moved, map_moved_forget, map_moved_forget, h]
  rfl

/-- One more step, done alike to results that are alike. -/
theorem Alike.bind {γ' : Type} {g : α → γ} {h : β → γ'} {x y : Except Fault α}
    {k : α → Except Fault β} {k' : γ → Except Fault γ'} (hxy : Alike g x y)
    (hk : ∀ a, k' (g a) = mapBoth (Fault.moved forget) h (k a)) :
    Alike h (x >>= k) (y >>= k) := by
  rw [Alike, ← mapBoth_bind forget hk, hxy, mapBoth_bind forget hk]

/-- Blocks that are alike make up the same definitions. -/
theorem Alike.definitions {read read' : Except Fault (List Block)}
    (h : Alike (List.map (Block.moved forget)) read read') :
    Alike (List.map (Definition.moved forget)) (read >>= Definition.ofBlocks)
      (read' >>= Definition.ofBlocks) :=
  h.bind (Definition.ofBlocks_moved forget)

/-- Definitions that are alike make up the same workflow. -/
theorem Alike.workflow {read read' : Except Fault (List Definition)}
    (h : Alike (List.map (Definition.moved forget)) read read') :
    Alike id (read >>= Workflow.ofDefinitions) (read' >>= Workflow.ofDefinitions) :=
  h.bind (Workflow.ofDefinitions_moved forget)

end ContainerFlow
