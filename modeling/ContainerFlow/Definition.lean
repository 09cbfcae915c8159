/-
ContainerFlow.Definition — reading blocks as definitions.

A block that makes sense is a definition of a workflow or of an action.  `Definition.ofBlock` reads
it off the pairs of the block.  Of the things that may be wrong with a block, the first of these is
reported:

1. a key that stands there twice, at its second place;
2. a key that has to be there and is not, at the head of the block;
3. a value of the wrong kind, at its key, the keys taken in the order of the definition;
4. a key that definitions of this kind do not have, the first in the file.
-/
import ContainerFlow.Block
import ContainerFlow.Value.Projection

namespace ContainerFlow

/-- When to run, and which actions to run for. -/
structure WorkflowDefinition where
  name : String
  trigger : String
  resolves : List String
  position : Position
  deriving DecidableEq, Repr

/-- What to run, after which other actions, and with which variables and secrets.  `runs` and `args`
tell a list that is not declared from one that is declared empty. -/
structure ActionDefinition where
  name : String
  uses : String
  needs : List String
  runs : Option (List String)
  args : Option (List String)
  env : Bindings
  secrets : List String
  position : Position
  deriving DecidableEq, Repr

/-- A definition: what a block stands for. -/
inductive Definition where
  | workflow (d : WorkflowDefinition)
  | action (d : ActionDefinition)
  deriving DecidableEq, Repr

/-! ## Keys of a block -/

/-- The first pair whose key is one of `seen` or stands earlier in the list. -/
def firstRepeat (seen : List String) : List Pair → Option Pair
  | [] => none
  | pair :: rest =>
    if pair.key ∈ seen then some pair else firstRepeat (pair.key :: seen) rest

namespace Block

/-- Refuses a key that stands there twice. -/
def checkDistinct (b : Block) : Except Fault Unit :=
  match firstRepeat [] b.pairs with
  | some pair => .error (.atPosition (.duplicateKey pair.key) pair.position)
  | none => .ok ()

/-- A required key that is not there, reported at the head of the block. -/
def missing (b : Block) (key : String) : Fault := .atPosition (.missingKey key) b.position

/-- Refuses a block without all the required keys. -/
def checkRequired (b : Block) (required : List String) : Except Fault Unit :=
  match required.find? fun key => (b.pair? key).isNone with
  | some key => .error (b.missing key)
  | none => .ok ()

/-- Refuses a key that is not known. -/
def checkKnown (b : Block) (known : List String) : Except Fault Unit :=
  match b.pairs.find? fun pair => !known.contains pair.key with
  | some pair => .error (.atPosition (.unexpectedKey pair.key) pair.position)
  | none => .ok ()

/-- The value of a key, read by `read`; `none` when the key is not there. -/
def optional {α : Type} (b : Block) (key : String)
    (read : Value → Option Position → Except Fault α) : Except Fault (Option α) :=
  match b.pair? key with
  | some pair => (read pair.value (some pair.position)).map some
  | none => .ok none

/-- The value of a key that has to be there, read by `read`. -/
def required {α : Type} (b : Block) (key : String)
    (read : Value → Option Position → Except Fault α) : Except Fault α :=
  match b.pair? key with
  | some pair => read pair.value (some pair.position)
  | none => .error (b.missing key)

end Block

/-! ## Definitions of blocks -/

/-- The keys that a workflow block has to have; it has no others. -/
def WorkflowDefinition.keys : List String := ["on", "resolves"]

/-- The workflow that a block defines. -/
def WorkflowDefinition.ofBlock (b : Block) : Except Fault WorkflowDefinition := do
  b.checkDistinct
  b.checkRequired keys
  let trigger ← b.required "on" Value.asString
  let resolves ← b.required "resolves" Value.singletonOrArray
  b.checkKnown keys
  return { name := b.name, trigger, resolves, position := b.position }

/-- The keys that an action block has to have. -/
def ActionDefinition.requiredKeys : List String := ["uses"]

/-- The keys that an action block may have. -/
def ActionDefinition.keys : List String := ["uses", "needs", "runs", "args", "env", "secrets"]

/-- The action that a block defines. -/
def ActionDefinition.ofBlock (b : Block) : Except Fault ActionDefinition := do
  b.checkDistinct
  b.checkRequired requiredKeys
  let uses ← b.required "uses" Value.asString
  let needs ← b.optional "needs" Value.singletonOrArray
  let runs ← b.optional "runs" Value.wordsOrArray
  let args ← b.optional "args" Value.wordsOrArray
  let env ← b.optional "env" Value.asMap
  let secrets ← b.optional "secrets" Value.asArray
  b.checkKnown keys
  return { name := b.name, uses, needs := needs.getD [], runs, args, env := env.getD .empty,
           secrets := secrets.getD [], position := b.position }

namespace Definition

/-- The definition that a block stands for. -/
def ofBlock (b : Block) : Except Fault Definition :=
  if b.kind = Block.workflowKind then (WorkflowDefinition.ofBlock b).map .workflow
  else if b.kind = Block.actionKind then (ActionDefinition.ofBlock b).map .action
  else .error (.defect (.unknownBlockKind b.kind))

/-- The definitions of a list of blocks, in order; the first block that makes no sense stops. -/
def ofBlocks : List Block → Except Fault (List Definition)
  | [] => .ok []
  | b :: rest => do
    let d ← ofBlock b
    let later ← ofBlocks rest
    return d :: later

end Definition

end ContainerFlow
