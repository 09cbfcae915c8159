/-
ContainerFlow.Run — running actions one at a time.

Actions run one at a time in a given order.  For each of them the command that starts its container
is built, shown and, unless it is a dry run, started; the next action has to wait for it.  The first
action that fails, or that cannot be started, ends the run.

What the started processes do comes from outside, as a script that is read one entry a process; a
process that the script does not mention succeeds.  The system may also refuse to start one, which
nothing provides for.
-/
import ContainerFlow.Container
import ContainerFlow.System
import ContainerFlow.Terminal

namespace ContainerFlow

/-- What becomes of a started process. -/
inductive ProcessEnd where
  | exited (code : Int)
  /-- The program to start is not there. -/
  | missing
  /-- The user stops everything while it runs. -/
  | interrupted
  deriving DecidableEq, Repr

/-- What the started processes do, in turn. -/
abbrev Script := List ProcessEnd

namespace Script

/-- What the next process does, and the script for those after it. -/
def next : Script → ProcessEnd × Script
  | [] => (.exited 0, [])
  | first :: rest => (first, rest)

end Script

/-- How an action, or a run, comes to its end. -/
inductive RunEnd where
  | exited (code : Int)
  | stopped (fault : Fault)
  | interrupted
  deriving DecidableEq, Repr

/-- A started process: the number of the action, the words that start its container, and what
becomes of it. -/
structure ContainerStart where
  action : Nat
  words : List String
  ending : ProcessEnd
  deriving DecidableEq, Repr

/-- What can be seen of a run: what is shown, the processes in the order in which they are started,
and the end. -/
structure Trace where
  messages : List Message
  starts : List ContainerStart
  ending : RunEnd
  deriving DecidableEq, Repr

namespace Run

/-- The end of an action whose process does this. -/
def endOf (binary : String) : ProcessEnd → RunEnd
  | .exited code => .exited code
  | .missing => .stopped (.ofCause (.containersUnavailable binary))
  | .interrupted => .interrupted

/-- Runs one action, whose number is `id`, and gives back the script for the processes after it. -/
def action (w : Workflow) (s : Container.Setup) (dry : Bool) (id : Nat) (a : Action)
    (script : Script) (sys : System := {}) : Trace × Script :=
  match Container.image a with
  | .error fault => (⟨[.actionStarted a.name], [], .stopped fault⟩, script)
  | .ok image =>
    let words := Container.wordsFor w a s image
    let messages := [.actionStarted a.name, .image image, .command words]
    if dry then (⟨messages, [], .exited 0⟩, script)
    else
      match sys.startError? words with
      | some text => (⟨messages, [], .stopped (.defect (.lost (.said text)))⟩, script)
      | none =>
        let (ending, later) := script.next
        (⟨messages, [⟨id, words, ending⟩], endOf s.binary ending⟩, later)

/-- A trace and, after it, another. -/
def append (first later : Trace) : Trace :=
  ⟨first.messages ++ later.messages, first.starts ++ later.starts, later.ending⟩

/-- What is shown of an action that fails. -/
def failed (t : Trace) (name : String) (code : Int) : Trace :=
  { t with messages := t.messages ++ [.actionFailed name code] }

/-- Runs the actions with these numbers, one after the other, up to the first that fails. -/
def actions (w : Workflow) (s : Container.Setup) (dry : Bool) (sys : System) :
    List Nat → Script → Trace
  | [], _ => ⟨[], [], .exited 0⟩
  | id :: rest, script =>
    match w.action id with
    | .error fault => ⟨[], [], .stopped fault⟩
    | .ok a =>
      let (first, later) := action w s dry id a script sys
      match first.ending with
      | .exited code =>
        if code = 0 then append first (actions w s dry sys rest later)
        else failed first a.name code
      | .stopped _ | .interrupted => first

end Run

end ContainerFlow
