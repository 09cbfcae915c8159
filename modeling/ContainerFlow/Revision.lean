/-
ContainerFlow.Revision — the commit that actions run for.

Actions are told which commit of the repository they run for.  Version control is asked for it; what
it prints is the answer, less the blanks at both ends.
-/
import ContainerFlow.Fault
import ContainerFlow.Text.Blank

namespace ContainerFlow.Revision

/-- What becomes of asking version control. -/
inductive Reply where
  /-- It ran, and printed this. -/
  | printed (text : String)
  /-- It is not installed. -/
  | missing
  /-- It refused, with this exit code. -/
  | exited (code : Int)
  deriving DecidableEq, Repr

/-- The words that ask for the current commit. -/
def headQuery : List String := ["rev-parse", "HEAD"]

/-- The answer in the reply to a query. -/
def answer (query : List String) : Reply → Except Fault String
  | .printed text => .ok (Text.trimBlank text)
  | .missing => .error (.ofCause (.revision .notInstalled))
  | .exited code => .error (.ofCause (.revision (.exited query code)))

/-- The current commit. -/
def head (reply : Reply) : Except Fault String := answer headQuery reply

end ContainerFlow.Revision
