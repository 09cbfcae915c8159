/-
ContainerFlow.WorkflowFile — finding and reading the file of a workflow.

Where a workflow is found and how its file is read.  A path leads to the file itself, or to a
directory that holds it at a given place.  The file is read as UTF-8, its line endings are made
one, and the text is compiled.  A file that is found may still be one that the system refuses to
read.
-/
import ContainerFlow.FileTree
import ContainerFlow.Path.Home
import ContainerFlow.System
import ContainerFlow.Text.LineEnding
import ContainerFlow.Text.Utf8
import ContainerFlow.Workflow.Compile

namespace ContainerFlow

/-- A file tree as somebody sees it who stands at a directory and knows where homes are. -/
structure View where
  tree : FileTree
  here : Location
  homes : Homes

namespace View

/-- What a path leads to, or `none` when it leads to nothing.  That a path is too long is not a
matter of what is there, so it is a fault. -/
def lookup (v : View) (p : Path) : Except Fault (Option Entry) :=
  match v.tree.lookup v.here p with
  | .ok e => .ok (some e)
  | .error .tooLong => .error (.defect (.path ⟨.tooLong, p⟩))
  | .error _ => .ok none

end View

namespace WorkflowFile

/-- Where a workflow lies in its repository unless something else is said. -/
def defaultPlace : String := ".github/main.workflow"

/-- The path that a text writes, its home directory put in. -/
def start (v : View) (path : String) : Except Fault Path :=
  match (Path.ofText path).expandHome v.homes with
  | .ok p => .ok p
  | .error problem => .error (.defect (.path ⟨problem, .ofText path⟩))

/-- The path that is looked at: the path itself, or the place of the file behind it when it leads to
a directory. -/
def candidate (v : View) (path place : String) : Except Fault Path := do
  let p ← start v path
  match ← v.lookup p with
  | some .directory => return p.join (.ofText place)
  | _ => return p

/-- The path of a workflow file, and what the file holds. -/
def find (v : View) (path place : String) : Except Fault (Path × ByteArray) := do
  let p ← candidate v path place
  match ← v.lookup p with
  | some (.file content) => return (p, content)
  | _ => .error (.ofCause (.fileNotFound p.render))

/-- The text that a file holds. -/
def textOf (p : Path) (content : ByteArray) : Except Fault String :=
  match Text.decodeUtf8 content with
  | .ok text => .ok (String.ofList (Text.unifyLineEndings text.toList))
  | .error offset => .error (.ofCause (.fileUnreadable p.render (notUtf8Reason offset)))

/-- The text of the file at a path, if the system lets it be read. -/
def read (sys : System) (p : Path) (content : ByteArray) : Except Fault String :=
  match sys.readError? p with
  | some reason => .error (.ofCause (.fileUnreadable p.render reason))
  | none => textOf p content

/-- What becomes of the workflow file that a path leads to. -/
def load (v : View) (path place : String) (sys : System := {}) : Compilation :=
  match find v path place with
  | .error fault => ⟨.error fault, []⟩
  | .ok (p, content) =>
    match read sys p content with
    | .error fault => ⟨.error fault, []⟩
    | .ok text => Workflow.compile text

end WorkflowFile

end ContainerFlow
