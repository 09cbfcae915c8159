/-
ContainerFlow.Policy.Violation — the rules that a workflow may break.

A workflow that is well formed may still break a rule of the service that it is written for.  A
violation names the rule, what breaks it, and the action it was found in, if it is of one action.
-/

namespace ContainerFlow.Policy

/-- The beginning that is kept for the variables of the service. -/
def reservedBeginning : String := "GITHUB_"

/-- How many different secrets a workflow may use. -/
def secretLimit : Nat := 100

/-- The two lists of words that an action may not leave empty once it declares them. -/
inductive WordList where
  | runs
  | args
  deriving DecidableEq, Repr

/-- The key that declares a list of words. -/
def WordList.key : WordList → String
  | .runs => "runs"
  | .args => "args"

/-- A broken rule. -/
inductive Violation where
  /-- The action binds a variable whose name is kept for the service. -/
  | reservedName (action envName : String)
  /-- The actions together use this many different secrets, which is too many. -/
  | secretBudget (count : Nat)
  /-- The action declares a list of words and leaves it empty. -/
  | emptyWords (action : String) (list : WordList)
  deriving DecidableEq, Repr

namespace Violation

/-- The name of the rule that is broken. -/
def rule : Violation → String
  | .reservedName _ _ => "reserved_prefix"
  | .secretBudget _ => "secret_budget"
  | .emptyWords _ _ => "empty_collection"

/-- The action in which the rule is broken. -/
def action? : Violation → Option String
  | .reservedName action _ => some action
  | .secretBudget _ => none
  | .emptyWords action _ => some action

/-- What is wrong, in words. -/
def message : Violation → String
  | .reservedName _ envName =>
    s!"in env var '{envName}': var name starts with reserved prefix {reservedBeginning}"
  | .secretBudget count =>
    s!"you are using {count} secrets, which exceeds GitHub limit of {secretLimit}"
  | .emptyWords _ list => s!"{list.key} is defined to empty value"

/-- The line that reports a violation. -/
def line (v : Violation) : String :=
  match v.action? with
  | some action => s!"Error: in action '{action}': {v.message}"
  | none => s!"Error: {v.message}"

end Violation

end ContainerFlow.Policy
