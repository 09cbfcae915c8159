/-
ContainerFlow.Main — the program.

The command line, with the files of the machine it runs on.  It looks at the paths that the request
names, works out the outcome, and writes it.  No process is ever started from here: version control
and containers count as not installed, so a run ends where it would need them.
-/
import ContainerFlow.CommandLine.Outcome
import ContainerFlow.CommandLine.Survey

namespace ContainerFlow.Program

/-- The page that explains the command line. -/
def usagePage : String :=
  "Usage: actionflow [--debug] COMMAND [OPTIONS] [PATH]\n\n" ++
  "Validate, order and run main.workflow files locally.\n\n" ++
  "Commands:\n" ++
  "  check  Parse, resolve, lint and schedule a workflow without running it.\n" ++
  "  plan   Print the order in which actions would run.\n" ++
  "  run    Run the workflow in PATH, one container per action.\n"

/-- The number of the system's complaint about reading a directory as a file. -/
def isDirectoryCode : UInt32 := 21

/-- What is at a path. -/
def probe (p : Path) : IO (Option Entry) := do
  match ← EIO.toBaseIO (IO.FS.readBinFile p.render) with
  | .ok content => return some (.file content)
  | .error (.inappropriateType _ code _) =>
    return if code = isDirectoryCode then some .directory else none
  | .error _ => return none

/-- What is at the paths. -/
def survey : List Path → IO CommandLine.Survey
  | [] => return []
  | p :: rest => do
    let later ← survey rest
    match ← probe p with
    | some e => return (p, e) :: later
    | none => return later

/-- What names of the environment are set to. -/
def environment : List String → IO CommandLine.Environment
  | [] => return []
  | name :: rest => do
    let later ← environment rest
    match ← IO.getEnv name with
    | some text => return (name, text) :: later
    | none => return later

/-- Where homes are, as far as the environment does not say. -/
def homes : Homes := ⟨"", []⟩

/-- A machine on which the surveyed paths lead to something and no other program is installed. -/
def host (found : CommandLine.Survey) (homes : Homes) : CommandLine.Host where
  view := found.view homes
  scratch := .fresh (found.view homes).tree ["scratch"]
  revision := .missing
  script := []

/-- The exit code of the process. -/
def exitCode (exit : CommandLine.Exit) : UInt32 := (exit.status % 256).toNat.toUInt32

/-- What is shown at the end, when the command line does not come to an exit code of its own. -/
def lastWords : CommandLine.Exit → String
  | .code _ => ""
  | .defect d => d.message ++ "\n"

end ContainerFlow.Program

open ContainerFlow in
/-- Does what the command line asks for. -/
def main (words : List String) : IO UInt32 := do
  let env ← Program.environment ["ACTIONFLOW_WORKFLOW_FILE", "ACTIONFLOW_DOCKER", "HOME"]
  let homes := CommandLine.homesIn env Program.homes
  let paths := match CommandLine.read env words with
    | .request r => r.paths homes
    | _ => []
  let host := Program.host (← Program.survey paths) homes
  let (outcome, debug) := CommandLine.execute host env words
  let style : Style := ⟨debug, Program.usagePage, ""⟩
  IO.print (stdoutText style outcome.messages)
  IO.eprint (stderrText style outcome.messages ++ Program.lastWords outcome.exit)
  return Program.exitCode outcome.exit
