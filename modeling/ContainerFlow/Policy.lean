/-
ContainerFlow.Policy — the review of a workflow.

The rules of the service that workflows are written for: names of variables that are kept for it, a
limit on secrets, and no lists of words that are declared and left empty.  A review goes through all
rules, also after one is found broken, and lists every violation; one of them is enough to refuse
the workflow.

Of each violation is told as soon as it is found: whoever is given to be told, or else the console.
Whoever counts as nobody is passed over for the console, too.
-/
import ContainerFlow.Workflow

namespace ContainerFlow.Policy

/-- Whether a review lets a workflow pass. -/
inductive Severity where
  | allow
  | error
  deriving DecidableEq, Repr

namespace Severity

/-- The name of a severity. -/
def name : Severity → String
  | .allow => "ALLOW"
  | .error => "ERROR"

/-- The worse of two severities. -/
def max : Severity → Severity → Severity
  | .allow, s => s
  | .error, _ => .error

end Severity

/-- What a review found. -/
structure Review where
  severity : Severity
  violations : List Violation
  deriving DecidableEq, Repr

namespace Review

/-- Whether the workflow may be used. -/
def passes (r : Review) : Bool := r.severity = .allow

/-- Refuses a workflow that does not pass. -/
def check (r : Review) : Except Fault Unit :=
  if r.passes then .ok () else .error (.ofCause (.rejected r.violations))

end Review

/-! ## The rules -/

/-- How a pass through a workflow stands: how bad what it has found is, and what those have become
whom it tells. -/
abbrev Standing (τ : Type) := Severity × τ

/-- One more violation, of which is told at once. -/
def violate {τ : Type} (report : τ → Violation → τ) (s : Standing τ) (v : Violation) : Standing τ :=
  (s.1.max .error, report s.2 v)

/-- Whether a name is kept for the service.  Upper and lower case differ. -/
def isReserved (name : String) : Bool := reservedBeginning.toList.isPrefixOf name.toList

/-- Looks for variables whose names are kept for the service: actions in order, and their names in
order. -/
def passNames (τ : Type) (report : τ → Violation → τ) (w : Workflow) (start : τ) : Standing τ :=
  w.actions.foldl (fun s a =>
    a.env.names.foldl (fun s name =>
      if isReserved name then violate report s (.reservedName a.name name) else s) s)
    (.allow, start)

/-- The items of a list, each once. -/
def distinct : List String → List String
  | [] => []
  | a :: rest => if a ∈ rest then distinct rest else a :: distinct rest

/-- The different secrets of all actions together. -/
def secrets (w : Workflow) : List String := distinct (w.actions.flatMap (·.secrets))

/-- Looks for too many different secrets. -/
def passSecrets (τ : Type) (report : τ → Violation → τ) (w : Workflow) (start : τ) : Standing τ :=
  let count := (secrets w).length
  if count > secretLimit then (.error, report start (.secretBudget count)) else (.allow, start)

/-- The lists of words of an action, in the order in which they are looked at. -/
def wordLists (a : Action) : List (WordList × Option (List String)) :=
  [(.runs, a.runs), (.args, a.args)]

/-- Looks for lists of words that are declared and empty. -/
def passWords (τ : Type) (report : τ → Violation → τ) (w : Workflow) (start : τ) : Standing τ :=
  w.actions.foldl (fun s a =>
    (wordLists a).foldl (fun s l =>
      if l.2 = some [] then violate report s (.emptyWords a.name l.1) else s) s)
    (.allow, start)

/-- A pass through a workflow that tells somebody what it finds. -/
abbrev Pass := (τ : Type) → (τ → Violation → τ) → Workflow → τ → Standing τ

/-- The passes, in order. -/
def passes : List Pass := [passNames, passSecrets, passWords]

/-! ## Who is told -/

/-- Somebody who can be told of violations. -/
structure Sink (σ : Type) where
  hear : σ → Violation → σ
  /-- Whether it counts as somebody: what is empty may be taken for nobody. -/
  counts : σ → Bool := fun _ => true

/-- What those become who may hear of violations: the sink that is given, and the console. -/
structure Audience (σ : Type) where
  sink : σ
  console : List Violation
  deriving DecidableEq

namespace Audience

variable {σ : Type}

/-- Shows a violation on the console. -/
def tellConsole (a : Audience σ) (v : Violation) : Audience σ :=
  { a with console := a.console ++ [v] }

/-- Tells the sink of a violation. -/
def tellSink (sink : Sink σ) (a : Audience σ) (v : Violation) : Audience σ :=
  { a with sink := sink.hear a.sink v }

/-- Tells the sink, if one is given and counts at the start, and the console otherwise. -/
def teller (sink? : Option (Sink σ)) (start : σ) : Audience σ → Violation → Audience σ :=
  match sink? with
  | some sink => if sink.counts start then tellSink sink else tellConsole
  | none => tellConsole

end Audience

/-! ## Reviews -/

/-- The violations that have been found, and those who have been told of them. -/
structure Collection (σ : Type) where
  violations : List Violation
  audience : Audience σ

/-- Keeps a violation, and tells of it. -/
def collect {σ : Type} (tell : Audience σ → Violation → Audience σ) (c : Collection σ)
    (v : Violation) : Collection σ :=
  ⟨c.violations ++ [v], tell c.audience v⟩

/-- One more pass, also after one that has found something. -/
def makePass {σ : Type} (tell : Audience σ → Violation → Audience σ) (w : Workflow)
    (s : Standing (Collection σ)) (pass : Pass) : Standing (Collection σ) :=
  let found := pass (Collection σ) (collect tell) w s.2
  (s.1.max found.1, found.2)

/-- A review that makes all passes, and what those become who may hear of it. -/
def reviewReporting {σ : Type} (sink? : Option (Sink σ)) (start : σ) (w : Workflow) :
    Review × Audience σ :=
  let found := passes.foldl (makePass (Audience.teller sink? start) w) (.allow, ⟨[], ⟨start, []⟩⟩)
  (⟨found.1, found.2.violations⟩, found.2.audience)

/-- A review with nobody to tell but the console. -/
def review (w : Workflow) : Review := (reviewReporting (none : Option (Sink Unit)) () w).1

/-- A review that makes one pass. -/
def reviewPass (pass : Pass) (w : Workflow) : Review :=
  let found := pass (List Violation) (fun found v => found ++ [v]) w []
  ⟨found.1, found.2⟩

/-- A review of the names of variables. -/
def reviewNames (w : Workflow) : Review := reviewPass passNames w

/-- A review of the number of secrets. -/
def reviewSecrets (w : Workflow) : Review := reviewPass passSecrets w

/-- A review of the lists of words. -/
def reviewWords (w : Workflow) : Review := reviewPass passWords w

end ContainerFlow.Policy
