/-
ContainerFlow.Workflow.Resolve — from names to numbers.

Definitions refer to actions by name; a workflow refers to them by number.  All actions are numbered
before any reference is looked up, so a definition may refer to actions that stand further down.

A name that two actions bear is reported before anything else.  Then the definitions are taken in
the order of the file: a second workflow, a trigger that is none, or a reference to an action that
is not there stops at its definition.  That there is no workflow at all is found out last.
-/
import ContainerFlow.Definition
import ContainerFlow.NameTable
import ContainerFlow.Workflow

namespace ContainerFlow

/-! ## Numbering -/

/-- The table with the names of the actions among the definitions fed to it, in order. -/
def NameTable.feedActions (table : NameTable) : List Definition → Except Fault NameTable
  | [] => .ok table
  | .workflow _ :: rest => table.feedActions rest
  | .action d :: rest =>
    let fed := table.feed d.name
    if fed.inserted then fed.table.feedActions rest
    else .error (.atPosition (.duplicateAction d.name) d.position)

/-- The numbers of the actions among the definitions. -/
def NameTable.ofDefinitions (ds : List Definition) : Except Fault NameTable :=
  NameTable.empty.feedActions ds

/-! ## Looking up -/

/-- The numbers of names that `referrer`, a definition at `position`, refers to. -/
def NameTable.resolve (table : NameTable) (referrer : String) (position : Position) :
    List String → Except Fault (List Nat)
  | [] => .ok []
  | name :: rest =>
    match table.get? name with
    | some id => do
      let ids ← table.resolve referrer position rest
      return id :: ids
    | none => .error (.atPosition (.unknownAction referrer name) position)

/-- A workflow without its actions. -/
structure Workflow.Head where
  name : String
  trigger : Trigger
  depends : List Nat
  deriving DecidableEq, Repr

/-- The head of a workflow. -/
def WorkflowDefinition.resolve (table : NameTable) (d : WorkflowDefinition) :
    Except Fault Workflow.Head :=
  match Trigger.ofName? d.trigger with
  | some trigger => do
    let depends ← table.resolve s!"workflow {d.name}" d.position d.resolves
    return { name := d.name, trigger, depends }
  | none => .error (.atPosition (.unknownTrigger d.trigger) d.position)

/-- An action. -/
def ActionDefinition.resolve (table : NameTable) (d : ActionDefinition) : Except Fault Action := do
  let needs ← table.resolve s!"action {d.name}" d.position d.needs
  return { name := d.name, uses := d.uses, runs := d.runs, args := d.args, needs, env := d.env,
           secrets := d.secrets }

/-- The head of the workflow, if there is one, and the actions of the definitions, when `head?` has
been found before them. -/
def resolveFrom (table : NameTable) (head? : Option Workflow.Head) :
    List Definition → Except Fault (Option Workflow.Head × List Action)
  | [] => .ok (head?, [])
  | .workflow d :: rest =>
    if head?.isSome then .error (.atPosition .multipleWorkflows d.position)
    else do
      let head ← d.resolve table
      resolveFrom table (some head) rest
  | .action d :: rest => do
    let action ← d.resolve table
    let (head?, actions) ← resolveFrom table head? rest
    return (head?, action :: actions)

/-- The workflow that a list of definitions makes up. -/
def Workflow.ofDefinitions (ds : List Definition) : Except Fault Workflow := do
  let table ← NameTable.ofDefinitions ds
  match ← resolveFrom table none ds with
  | (some head, actions) =>
    return { name := head.name, trigger := head.trigger, depends := head.depends, actions }
  | (none, _) => .error (.ofCause .missingWorkflow)

end ContainerFlow
