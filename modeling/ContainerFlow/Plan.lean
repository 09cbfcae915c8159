/-
ContainerFlow.Plan — what a run would do, in order.

A plan shows what a run would do: for every action of an order its number and everything that it
declares, the actions that it needs by name again.  Plans are for reading, by people as a list of
names and by programs as JSON.
-/
import ContainerFlow.Json
import ContainerFlow.Schedule

namespace ContainerFlow

/-- An action in a plan. -/
structure Plan.Entry where
  id : Nat
  name : String
  uses : String
  needs : List String
  runs : Option (List String)
  args : Option (List String)
  env : Bindings
  secrets : List String
  deriving DecidableEq, Repr

/-- What a run would do. -/
structure Plan where
  workflow : String
  trigger : String
  resolves : List String
  entries : List Plan.Entry
  deriving DecidableEq, Repr

namespace Plan

/-- The action with a number, as plans show it. -/
def Entry.ofId (w : Workflow) (id : Nat) : Except Fault Entry := do
  let a ← w.action id
  let needs ← w.namesOf a.needs
  return { id, name := a.name, uses := a.uses, needs, runs := a.runs, args := a.args, env := a.env,
           secrets := a.secrets }

/-- The actions with these numbers, as plans show them. -/
def entriesOf (w : Workflow) : List Nat → Except Fault (List Entry)
  | [] => .ok []
  | id :: rest => do
    let entry ← Entry.ofId w id
    let later ← entriesOf w rest
    return entry :: later

/-- The plan for running the actions in an order. -/
def ofOrder (w : Workflow) (order : List Nat) : Except Fault Plan := do
  let entries ← entriesOf w order
  let resolves ← w.namesOf w.depends
  return { workflow := w.name, trigger := w.trigger.name, resolves, entries }

/-! ## Plans for programs -/

/-- Words that may not be declared. -/
def wordsJson : Option (List String) → Json
  | none => .null
  | some items => .strings items

/-- An entry for programs. -/
def Entry.toJson (e : Entry) : Json :=
  .object [
    ("id", .number e.id),
    ("name", .string e.name),
    ("uses", .string e.uses),
    ("needs", .strings e.needs),
    ("runs", wordsJson e.runs),
    ("args", wordsJson e.args),
    ("env", .object (e.env.entries.map fun (name, text) => (name, .string text))),
    ("secrets", .strings e.secrets)]

/-- A plan for programs. -/
def toJson (p : Plan) : Json :=
  .object [
    ("workflow", .string p.workflow),
    ("on", .string p.trigger),
    ("resolves", .strings p.resolves),
    ("order", .array (p.entries.map Entry.toJson))]

end Plan

end ContainerFlow
