/-
ContainerFlow.Workflow — actions by number.

A workflow in which every name of an action has become the number of the action: its place in the
file, counted from zero among the actions.
-/
import ContainerFlow.Fault

namespace ContainerFlow

/-- The events that start a workflow. -/
inductive Trigger where
  | push
  deriving DecidableEq, Repr

namespace Trigger

/-- The name of an event. -/
def name : Trigger → String
  | .push => "push"

/-- The event of a name. -/
def ofName? (name : String) : Option Trigger := if name = "push" then some .push else none

end Trigger

/-- One run of a container: what to run, after which other actions, and with which variables and
secrets.  `runs` and `args` tell a list that is not declared from one that is declared empty. -/
structure Action where
  name : String
  uses : String
  runs : Option (List String)
  args : Option (List String)
  needs : List Nat
  env : Bindings
  secrets : List String
  deriving DecidableEq, Repr

/-- A workflow and all actions of its file, each at the place that is its number. -/
structure Workflow where
  name : String
  trigger : Trigger
  depends : List Nat
  actions : List Action
  deriving DecidableEq, Repr

namespace Workflow

/-- How many actions there are. -/
def size (w : Workflow) : Nat := w.actions.length

/-- The numbers of all actions. -/
def ids (w : Workflow) : List Nat := List.range w.size

/-- The action with a number. -/
def action (w : Workflow) (id : Nat) : Except Fault Action :=
  match w.actions[id]? with
  | some a => .ok a
  | none => .error (.defect (.actionOutOfRange id))

/-- The names of the actions with these numbers. -/
def namesOf (w : Workflow) : List Nat → Except Fault (List String)
  | [] => .ok []
  | id :: rest => do
    let a ← w.action id
    let names ← w.namesOf rest
    return a.name :: names

/-- Whether every action that is referred to is there. -/
def InRange (w : Workflow) : Prop :=
  (∀ id ∈ w.depends, id < w.size) ∧ ∀ a ∈ w.actions, ∀ id ∈ a.needs, id < w.size

end Workflow

end ContainerFlow
