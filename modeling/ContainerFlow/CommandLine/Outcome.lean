/-
ContainerFlow.CommandLine.Outcome — what a command line does.

What a command line does, as a value: how it ends, the messages, the processes that were started,
and the file tree afterwards.  Everything that comes from outside is in the `Host`: the files, what
version control replies, what started processes do, where scratch directories may be made, and what
the system refuses.

Whether messages for finding faults are shown is a matter of the `Style` in which the messages of an
outcome are written; the outcome itself does not depend on it.
-/
import ContainerFlow.CommandLine.Request
import ContainerFlow.Plan
import ContainerFlow.Revision
import ContainerFlow.Run
import ContainerFlow.Scratch

namespace ContainerFlow.CommandLine

/-- What a command line meets with. -/
structure Host where
  view : View
  /-- Where the scratch directories are going to be. -/
  scratch : Scratch
  /-- The paths of the scratch directories, as commands write them.  They start from the top, but a
  place for such directories may be given in a roundabout way, which is then written too. -/
  workspaceDir : String := (Path.mk .top scratch.workspace).render
  homeDir : String := (Path.mk .top scratch.home).render
  revision : Revision.Reply
  script : Script
  system : System := {}

/-- The host as it is met with in an environment, which may set another home. -/
def Host.inEnvironment (host : Host) (env : Environment) : Host :=
  { host with view := { host.view with homes := homesIn env host.view.homes } }

/-- A started process, and what is in the workspace when it starts. -/
structure Call where
  start : ContainerStart
  entries : List (Location × Entry)
  deriving DecidableEq

/-- The listing of the workspace when a process starts. -/
def Call.files (c : Call) : List String := c.entries.map FileTree.listingLine

/-- How a command line ends. -/
inductive Exit where
  /-- With an exit code. -/
  | code (n : Int)
  /-- Before it comes to an exit code. -/
  | defect (d : Defect)
  deriving DecidableEq, Repr

/-- The exit code after a defect. -/
def defectCode : Int := 1

/-- The exit code that those see who wait for the command line. -/
def Exit.status : Exit → Int
  | .code n => n
  | .defect _ => defectCode

/-- What a command line does. -/
structure Outcome where
  exit : Exit
  messages : List Message
  calls : List Call
  tree : FileTree

/-! ## Faults -/

/-- What is shown of a failure. -/
def failureMessages (f : Failure) : List Message :=
  match f.cause with
  | .cycle first rest => [.cycle (cycleEdges first rest), .trace]
  | .rejected _ => [.error "Workflow failed validation" f.message none, .trace]
  | cause => [.error cause.title f.message cause.hint?, .trace]

/-- The exit code after a failure. -/
def failureCode : Int := 1

/-- The last messages, and the end, of a command line that a fault stops. -/
def endOfFault : Fault → List Message × Exit
  | .failure f => (failureMessages f, .code failureCode)
  | .defect d => ([], .defect d)

/-- The exit code after words that make no sense. -/
def misuseCode : Int := 2

/-- The exit code after the user has stopped a run. -/
def interruptCode : Int := 130

namespace Outcome

/-- An outcome that shows something and leaves everything as it is. -/
def quiet (host : Host) (exitCode : Int) (messages : List Message) : Outcome :=
  ⟨.code exitCode, messages, [], host.view.tree⟩

/-- The outcome of a fault after `shown`. -/
def stopped (host : Host) (shown : List Message) (fault : Fault) : Outcome :=
  let (last, exit) := endOfFault fault
  ⟨exit, shown ++ last, [], host.view.tree⟩

end Outcome

/-! ## Commands -/

/-- What becomes of the workflow file that a request is about. -/
def Host.loaded (host : Host) (r : Request) : Compilation :=
  WorkflowFile.load host.view r.path r.workflowFile host.system

/-- The workflow that a request is about with its order, or the fault; and what was shown on the
way. -/
def prepare (host : Host) (r : Request) : Except Fault (Workflow × List Nat) × List Message :=
  let compiled := host.loaded r
  let shown := compiled.reported.map fun v => .violation v.line
  match compiled.result with
  | .error fault => (.error fault, shown)
  | .ok w =>
    match w.order with
    | .error fault => (.error fault, shown)
    | .ok order => (.ok (w, order), shown)

/-- Checks a workflow. -/
def check (w : Workflow) : List Message :=
  [.info s!"OK: workflow '{w.name}' with {w.size} action(s)"]

/-- Shows the plan of a workflow. -/
def showPlan (w : Workflow) (order : List Nat) (json : Bool) : Except Fault (List Message) := do
  let plan ← Plan.ofOrder w order
  if json then return [.info plan.toJson.render]
  else return [.plan w.name (plan.entries.map (·.name))]

/-- The last messages, and the end, of a command line whose run ends like this. -/
def endOfRun : RunEnd → List Message × Exit
  | .exited code => ([], .code code)
  | .stopped fault => endOfFault fault
  | .interrupted => ([.info "\nInterrupted by user"], .code interruptCode)

/-- Runs the actions of a workflow in scratch directories, after `shown`. -/
def runIn (host : Host) (r : Request) (w : Workflow) (order : List Nat) (commit : String)
    (shown : List Message) : Outcome :=
  let target := Path.ofText host.workspaceDir
  let (tree, defect?) :=
    host.scratch.prepare host.view.tree host.view.here r.repository target host.system
  let after := host.scratch.release r.keepWorkspace tree host.system
  match defect? with
  | some d => ⟨.defect d, shown, [], after⟩
  | none =>
    let setup : Container.Setup := ⟨commit, host.workspaceDir, host.homeDir, r.docker⟩
    let trace := Run.actions w setup r.dry host.system order host.script
    let entries := tree.sortedBelow host.scratch.workspace
    let (last, exit) := endOfRun trace.ending
    let remark := .debug s!"workspace={host.workspaceDir} home={host.homeDir}"
    ⟨exit, shown ++ remark :: trace.messages ++ last, trace.starts.map (⟨·, entries⟩), after⟩

/-- Runs a workflow. -/
def run (host : Host) (r : Request) (w : Workflow) (order : List Nat) : Outcome :=
  let started := .runStarted w.name r.workflowPath.render w.size r.dry
  match Revision.head host.revision with
  | .error fault => .stopped host [started] fault
  | .ok commit => runIn host r w order commit [started, .debug s!"GITHUB_SHA={commit}"]

/-- Whether the path of a request to run leads to a directory.  The empty text is no path, and the
text itself has to be short enough, also where it says less than it could. -/
def hasDirectory (host : Host) (path : String) : Bool :=
  path ≠ "" && Path.textProblem? path = none &&
    match host.view.lookup (.ofText path) with
    | .ok (some .directory) => true
    | _ => false

/-- Does what is asked for, once the workflow is ready. -/
def perform (host : Host) (r : Request) (w : Workflow) (order : List Nat) : Outcome :=
  match r.command with
  | .check => .quiet host 0 (check w)
  | .plan =>
    match showPlan w order r.json with
    | .ok messages => .quiet host 0 messages
    | .error fault => .stopped host [] fault
  | .run => run host r w order

/-- What a request does. -/
def answer (host : Host) (r : Request) : Outcome :=
  if r.command = .run ∧ !hasDirectory host r.path then
    .quiet host misuseCode [.usage false]
  else
    match prepare host r with
    | (.error fault, shown) => .stopped host shown fault
    | (.ok (w, order), shown) =>
      let outcome := perform host r w order
      { outcome with messages := shown ++ outcome.messages }

/-- What a command line does, and whether messages for finding faults are to be shown. -/
def execute (host : Host) (env : Environment) (words : List String) : Outcome × Bool :=
  match read env words with
  | .help => (.quiet host 0 [.usage true], false)
  | .misuse _ => (.quiet host misuseCode [.usage false], false)
  | .defect d => (⟨.defect d, [], [], host.view.tree⟩, false)
  | .request r => (answer (host.inEnvironment env) r, r.debug)

end ContainerFlow.CommandLine
