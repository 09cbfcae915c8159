/-
ContainerFlow.Proofs.Definition.Keys — what stands under the keys of a
block, and the definition that it makes.

Keys, their kinds of values and which of them have to be there are a
table (`Block.keySpecs`).  A reader of values is told apart by the values
that it takes (`Value.Takes`) and by what it makes of them
(`Value.Reads`).  What a block says under a key is then a relation between
its pairs and the value (`Block.Says`), and `Definition.IsOf` puts
together what it says field by field.

A definition that is read off a block is what the block says
(`isOf_of_ofBlock`), and there is no other when no key stands there twice
(`IsOf.unique`).  The keys that are known are just those whose values are
read (`dependsOn_iff`).
-/
import Mathlib
import ContainerFlow.Proofs.Definition

namespace ContainerFlow

/-! ## Keys -/

/-- A key of a block: whether it has to be there, the kinds of values that it takes, and what
messages call these. -/
structure KeySpec where
  key : String
  required : Bool
  kinds : List Value.Kind
  words : String
  deriving DecidableEq, Repr

/-- The keys of a workflow. -/
def WorkflowDefinition.keySpecs : List KeySpec :=
  [⟨"on", true, [.string], "string"⟩,
    ⟨"resolves", true, [.string, .array], "array or single string"⟩]

/-- The keys of an action. -/
def ActionDefinition.keySpecs : List KeySpec :=
  [⟨"uses", true, [.string], "string"⟩,
    ⟨"needs", false, [.string, .array], "array or single string"⟩,
    ⟨"runs", false, [.string, .array], "array or string with space-separated items"⟩,
    ⟨"args", false, [.string, .array], "array or string with space-separated items"⟩,
    ⟨"env", false, [.map], "map"⟩,
    ⟨"secrets", false, [.array], "array"⟩]

namespace Block

/-- The keys that a block of its kind may have. -/
def keySpecs (b : Block) : List KeySpec :=
  if b.kind = workflowKind then WorkflowDefinition.keySpecs else ActionDefinition.keySpecs

end Block

/-! ## Values -/

namespace Value

/-- The reader takes values of these kinds, and of any other it says in these words what it
takes. -/
def Takes {α : Type} (read : Value → Option Position → Except Fault α) (kinds : List Kind)
    (words : String) : Prop :=
  ∀ v position fault, read v position = .error fault ↔
    v.kind ∉ kinds ∧ v.mismatch words position = fault

theorem takes_asString : Takes asString [.string] "string" := by
  intro v position fault
  cases v <;> simp [asString, kind]

theorem takes_asArray : Takes asArray [.array] "array" := by
  intro v position fault
  cases v <;> simp [asArray, kind]

theorem takes_asMap : Takes asMap [.map] "map" := by
  intro v position fault
  cases v <;> simp [asMap, kind]

theorem takes_singletonOrArray :
    Takes singletonOrArray [.string, .array] "array or single string" := by
  intro v position fault
  cases v <;> simp [singletonOrArray, kind]

theorem takes_wordsOrArray :
    Takes wordsOrArray [.string, .array] "array or string with space-separated items" := by
  intro v position fault
  cases v <;> simp [wordsOrArray, kind]

/-- The text of a string. -/
def text? : Value → Option String
  | .string text => some text
  | _ => none

/-- The items of an array, or those that a text stands for. -/
def items? (ofText : String → List String) : Value → Option (List String)
  | .string text => some (ofText text)
  | .array items => some items
  | .map _ => none

/-- The items of an array. -/
def array? : Value → Option (List String)
  | .array items => some items
  | _ => none

/-- The entries of a map. -/
def entries? : Value → Option Bindings
  | .map entries => some entries
  | _ => none

/-- The reader takes just the values that have the projection, for what it is. -/
def Reads {α : Type} (read : Value → Option Position → Except Fault α)
    (project : Value → Option α) : Prop :=
  ∀ v position a, read v position = .ok a ↔ project v = some a

theorem reads_asString : Reads asString text? := by
  intro v position text
  cases v <;> simp [asString, text?]

theorem reads_asArray : Reads asArray array? := by
  intro v position items
  cases v <;> simp [asArray, array?]

theorem reads_asMap : Reads asMap entries? := by
  intro v position entries
  cases v <;> simp [asMap, entries?]

theorem reads_singletonOrArray : Reads singletonOrArray (items? ([·])) := by
  intro v position items
  cases v <;> simp [singletonOrArray, items?]

theorem reads_wordsOrArray : Reads wordsOrArray (items? Text.words) := by
  intro v position items
  cases v <;> simp [wordsOrArray, items?]

end Value

/-! ## What a block says -/

/-- What a block says under a key: the projection of the value that stands there with it, or
nothing when the key is not there. -/
def Block.Says {α : Type} (b : Block) (key : String) (project : Value → Option α) :
    Option α → Prop
  | some a => ∃ pair ∈ b.pairs, pair.key = key ∧ project pair.value = some a
  | none => key ∉ b.pairs.map (·.key)

/-- As `Says`, but for what stands for a key that is not there. -/
def Block.SaysOr {α : Type} (b : Block) (key : String) (project : Value → Option α)
    (absent a : α) : Prop :=
  ∃ a?, b.Says key project a? ∧ a = a?.getD absent

/-- The workflow is what the block says, field by field. -/
structure WorkflowDefinition.IsOf (b : Block) (d : WorkflowDefinition) : Prop where
  name : d.name = b.name
  position : d.position = b.position
  trigger : b.Says "on" Value.text? (some d.trigger)
  resolves : b.Says "resolves" (Value.items? ([·])) (some d.resolves)

/-- The action is what the block says, field by field. -/
structure ActionDefinition.IsOf (b : Block) (d : ActionDefinition) : Prop where
  name : d.name = b.name
  position : d.position = b.position
  uses : b.Says "uses" Value.text? (some d.uses)
  needs : b.SaysOr "needs" (Value.items? ([·])) [] d.needs
  runs : b.Says "runs" (Value.items? Text.words) d.runs
  args : b.Says "args" (Value.items? Text.words) d.args
  env : b.SaysOr "env" Value.entries? .empty d.env
  secrets : b.SaysOr "secrets" Value.array? [] d.secrets

/-- The definition is of the kind of the block and is what the block says. -/
def Definition.IsOf (b : Block) : Definition → Prop
  | .workflow d => b.kind = Block.workflowKind ∧ d.IsOf b
  | .action d => b.kind = Block.actionKind ∧ d.IsOf b

namespace Block

variable {b : Block} {key : String}

theorem pair?_eq_none_iff : b.pair? key = none ↔ key ∉ b.pairs.map (·.key) := by
  simp [pair?]

/-- The pair that is found stands somewhere in the block and has the key. -/
theorem exists_split_of_pair? {pair : Pair} (h : b.pair? key = some pair) :
    pair.key = key ∧ ∃ earlier later, b.pairs = earlier ++ pair :: later := by
  obtain ⟨hkey, earlier, later, hpairs, -⟩ := List.find?_eq_some_iff_append.mp h
  exact ⟨by simpa using hkey, earlier, later, hpairs⟩

section Keys

variable {α : Type} {read : Value → Option Position → Except Fault α}

/-- When no key stands there twice, a key says one thing. -/
theorem Says.unique {project : Value → Option α} {key : String} {x y : Option α}
    (hdistinct : (b.pairs.map (·.key)).Nodup) (hx : b.Says key project x)
    (hy : b.Says key project y) : x = y := by
  cases x with
  | none =>
    cases y with
    | none => rfl
    | some a =>
      obtain ⟨pair, hpair, rfl, -⟩ := hy
      exact absurd (List.mem_map_of_mem hpair) hx
  | some a =>
    obtain ⟨pair, hpair, hkey, ha⟩ := hx
    cases y with
    | none => exact absurd (hkey ▸ List.mem_map_of_mem hpair) hy
    | some a' =>
      obtain ⟨pair', hpair', hkey', ha'⟩ := hy
      have heq : pair = pair' :=
        List.inj_on_of_nodup_map hdistinct hpair hpair' (hkey.trans hkey'.symm)
      rw [← ha, ← ha', heq]

theorem SaysOr.unique {project : Value → Option α} {key : String} {absent a a' : α}
    (hdistinct : (b.pairs.map (·.key)).Nodup) (h : b.SaysOr key project absent a)
    (h' : b.SaysOr key project absent a') : a = a' := by
  obtain ⟨x, hx, rfl⟩ := h
  obtain ⟨y, hy, rfl⟩ := h'
  rw [hx.unique hdistinct hy]

theorem says_of_optional {project : Value → Option α} {key : String} {a? : Option α}
    (hreads : Value.Reads read project) (h : b.optional key read = .ok a?) :
    b.Says key project a? := by
  cases a? with
  | none =>
    unfold optional at h
    split at h
    · obtain ⟨_, -, h⟩ := map_eq_ok_iff.mp h
      cases h
    · next hnone => exact pair?_eq_none_iff.mp hnone
  | some a =>
    obtain ⟨pair, hpair, hkey, hread⟩ := exists_pair_of_optional h
    exact ⟨pair, hpair, hkey, (hreads _ _ _).mp hread⟩

theorem says_of_required {project : Value → Option α} {key : String} {a : α}
    (hreads : Value.Reads read project) (h : b.required key read = .ok a) :
    b.Says key project (some a) := by
  obtain ⟨pair, hpair, hkey, hread⟩ := exists_pair_of_required h
  exact ⟨pair, hpair, hkey, (hreads _ _ _).mp hread⟩

end Keys

end Block

/-! ## Definitions -/

variable {b : Block}

namespace WorkflowDefinition

theorem isOf_of_ofBlock {d : WorkflowDefinition} (h : ofBlock b = .ok d) : d.IsOf b := by
  obtain ⟨-, -, trigger, htrigger, resolves, hresolves, -, rfl⟩ := ofBlock_eq_ok_iff.mp h
  exact ⟨rfl, rfl, Block.says_of_required Value.reads_asString htrigger,
    Block.says_of_required Value.reads_singletonOrArray hresolves⟩

theorem IsOf.unique {d d' : WorkflowDefinition} (hdistinct : (b.pairs.map (·.key)).Nodup)
    (h : d.IsOf b) (h' : d'.IsOf b) : d = d' := by
  obtain ⟨hname, hposition, htrigger, hresolves⟩ := h
  obtain ⟨hname', hposition', htrigger', hresolves'⟩ := h'
  cases d
  cases d'
  cases hname.trans hname'.symm
  cases hposition.trans hposition'.symm
  cases htrigger.unique hdistinct htrigger'
  cases hresolves.unique hdistinct hresolves'
  rfl

end WorkflowDefinition

namespace ActionDefinition

theorem isOf_of_ofBlock {d : ActionDefinition} (h : ofBlock b = .ok d) : d.IsOf b := by
  obtain ⟨-, -, uses, huses, needs, hneeds, runs, hruns, args, hargs, env, henv, secrets, hsecrets,
    -, rfl⟩ := ofBlock_eq_ok_iff.mp h
  exact
    { name := rfl
      position := rfl
      uses := Block.says_of_required Value.reads_asString huses
      needs := ⟨needs, Block.says_of_optional Value.reads_singletonOrArray hneeds, rfl⟩
      runs := Block.says_of_optional Value.reads_wordsOrArray hruns
      args := Block.says_of_optional Value.reads_wordsOrArray hargs
      env := ⟨env, Block.says_of_optional Value.reads_asMap henv, rfl⟩
      secrets := ⟨secrets, Block.says_of_optional Value.reads_asArray hsecrets, rfl⟩ }

theorem IsOf.unique {d d' : ActionDefinition} (hdistinct : (b.pairs.map (·.key)).Nodup)
    (h : d.IsOf b) (h' : d'.IsOf b) : d = d' := by
  obtain ⟨hname, hposition, huses, hneeds, hruns, hargs, henv, hsecrets⟩ := h
  obtain ⟨hname', hposition', huses', hneeds', hruns', hargs', henv', hsecrets'⟩ := h'
  cases d
  cases d'
  cases hname.trans hname'.symm
  cases hposition.trans hposition'.symm
  cases huses.unique hdistinct huses'
  cases hneeds.unique hdistinct hneeds'
  cases hruns.unique hdistinct hruns'
  cases hargs.unique hdistinct hargs'
  cases henv.unique hdistinct henv'
  cases hsecrets.unique hdistinct hsecrets'
  rfl

end ActionDefinition

namespace Definition

theorem isOf_of_ofBlock {d : Definition} (h : ofBlock b = .ok d) : d.IsOf b := by
  cases d with
  | workflow d =>
    obtain ⟨hkind, hd⟩ := ofBlock_eq_workflow_iff.mp h
    exact ⟨hkind, WorkflowDefinition.isOf_of_ofBlock hd⟩
  | action d =>
    obtain ⟨hkind, hd⟩ := ofBlock_eq_action_iff.mp h
    exact ⟨hkind, ActionDefinition.isOf_of_ofBlock hd⟩

theorem IsOf.unique {d d' : Definition} (hdistinct : (b.pairs.map (·.key)).Nodup)
    (h : d.IsOf b) (h' : d'.IsOf b) : d = d' := by
  cases d with
  | workflow d =>
    cases d' with
    | workflow d' => rw [h.2.unique hdistinct h'.2]
    | action d' => exact absurd (h.1.symm.trans h'.1) Block.workflowKind_ne_actionKind
  | action d =>
    cases d' with
    | workflow d' => exact absurd (h'.1.symm.trans h.1) Block.workflowKind_ne_actionKind
    | action d' => rw [h.2.unique hdistinct h'.2]

end Definition

/-! ## Keys that are read -/

namespace Block

/-- The block with one more pair, in front of the others. -/
def withPair (b : Block) (pair : Pair) : Block := { b with pairs := pair :: b.pairs }

/-- What `read` makes of some block depends on the value that stands there with the key. -/
def DependsOn {α : Type} (read : Block → Except Fault α) (key : String) : Prop :=
  ∃ (b : Block) (p : Position) (v v' : Value),
    read (b.withPair ⟨key, v, p⟩) ≠ read (b.withPair ⟨key, v', p⟩)

variable {b : Block} {key : String} {p : Position} {v v' : Value}

theorem checkDistinct_withPair :
    (b.withPair ⟨key, v, p⟩).checkDistinct = (b.withPair ⟨key, v', p⟩).checkDistinct := rfl

theorem checkRequired_withPair (keys : List String) :
    (b.withPair ⟨key, v, p⟩).checkRequired keys = (b.withPair ⟨key, v', p⟩).checkRequired keys := by
  have hnone (k : String) : ((b.withPair ⟨key, v, p⟩).pair? k).isNone
      = ((b.withPair ⟨key, v', p⟩).pair? k).isNone := by
    by_cases hkey : key = k <;> simp [pair?, withPair, hkey]
  simp only [checkRequired, hnone]
  rfl

theorem checkKnown_withPair (keys : List String) :
    (b.withPair ⟨key, v, p⟩).checkKnown keys = (b.withPair ⟨key, v', p⟩).checkKnown keys := by
  by_cases hkey : key ∈ keys <;> simp [checkKnown, withPair, hkey]

theorem pair?_withPair {k : String} (hkey : key ≠ k) :
    (b.withPair ⟨key, v, p⟩).pair? k = b.pair? k := by
  simp [pair?, withPair, hkey]

section Keys

variable {α : Type} {read : Value → Option Position → Except Fault α} {k : String}

theorem required_withPair (hkey : key ≠ k) :
    (b.withPair ⟨key, v, p⟩).required k read = b.required k read := by
  simp only [required, pair?_withPair hkey]
  rfl

theorem optional_withPair (hkey : key ≠ k) :
    (b.withPair ⟨key, v, p⟩).optional k read = b.optional k read := by
  simp only [optional, pair?_withPair hkey]

end Keys

/-- A block with a text under each of the keys but one. -/
def lacking (keys : List String) (key : String) : Block where
  kind := workflowKind
  name := ""
  position := ⟨1, 1⟩
  pairs := (keys.filter (· ≠ key)).map fun key => ⟨key, .string "", ⟨1, 1⟩⟩

end Block

variable {key : String}

/-- The keys that are known of a workflow are those that are read. -/
theorem WorkflowDefinition.dependsOn_iff : Block.DependsOn ofBlock key ↔ key ∈ keys := by
  constructor
  · rintro ⟨b, p, v, v', hne⟩
    by_contra hkey
    refine hne ?_
    simp only [keys, List.mem_cons, List.not_mem_nil, or_false, not_or] at hkey
    obtain ⟨hon, hresolves⟩ := hkey
    simp only [ofBlock, Block.required_withPair hon, Block.required_withPair hresolves]
    rw [Block.checkDistinct_withPair, Block.checkRequired_withPair, Block.checkKnown_withPair]
    rfl
  · intro hkey
    refine ⟨Block.lacking keys key, ⟨1, 1⟩, .map .empty, .array [], ?_⟩
    simp only [keys, List.mem_cons, List.not_mem_nil, or_false] at hkey
    rcases hkey with rfl | rfl <;> decide

/-- The keys that are known of an action are those that are read. -/
theorem ActionDefinition.dependsOn_iff : Block.DependsOn ofBlock key ↔ key ∈ keys := by
  constructor
  · rintro ⟨b, p, v, v', hne⟩
    by_contra hkey
    refine hne ?_
    simp only [keys, List.mem_cons, List.not_mem_nil, or_false, not_or] at hkey
    obtain ⟨huses, hneeds, hruns, hargs, henv, hsecrets⟩ := hkey
    simp only [ofBlock, Block.required_withPair huses, Block.optional_withPair hneeds,
      Block.optional_withPair hruns, Block.optional_withPair hargs, Block.optional_withPair henv,
      Block.optional_withPair hsecrets]
    rw [Block.checkDistinct_withPair, Block.checkRequired_withPair, Block.checkKnown_withPair]
    rfl
  · intro hkey
    refine ⟨Block.lacking requiredKeys key, ⟨1, 1⟩, .map .empty, .array [], ?_⟩
    simp only [keys, List.mem_cons, List.not_mem_nil, or_false] at hkey
    rcases hkey with rfl | rfl | rfl | rfl | rfl | rfl <;> decide

end ContainerFlow
