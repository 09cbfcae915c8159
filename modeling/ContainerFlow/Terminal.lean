/-
ContainerFlow.Terminal — what is shown to the user.

What is shown to the user, as messages.  A message says what is to be told; how it reads, and on
which of the two channels, is settled here.  Two kinds of messages are for finding faults in the
program and stay silent unless the style says so.
-/
import ContainerFlow.Policy.Violation

namespace ContainerFlow

/-- Something that is shown to the user. -/
inductive Message where
  | heading (title : String)
  | runStarted (workflow source : String) (actions : Int) (dry : Bool)
  | actionStarted (name : String)
  | image (name : String)
  | command (words : List String)
  | plan (workflow : String) (names : List String)
  | actionFailed (name : String) (code : Int)
  | violation (line : String)
  | cycle (edges : List (String × String))
  | error (title message : String) (hint? : Option String)
  | info (text : String)
  /-- The page that explains the command line, asked for or as an answer to words that make no
  sense. -/
  | usage (askedFor : Bool)
  /-- Where in the program a fault arose; for finding faults. -/
  | trace
  /-- A remark for finding faults. -/
  | debug (text : String)
  deriving DecidableEq, Repr

/-- How messages are shown. -/
structure Style where
  /-- Whether messages for finding faults are shown. -/
  debug : Bool
  /-- The page that explains the command line. -/
  usagePage : String
  /-- What is shown of the place where a fault arose. -/
  tracePage : String
  deriving DecidableEq, Repr

namespace Message

/-- A text as a line. -/
def line (text : String) : String := text ++ "\n"

/-- A title between an empty line and a rule of its length. -/
def headingText (title : String) : String :=
  line ("\n" ++ title) ++ line (String.ofList (List.replicate title.length '-'))

/-- Names as a numbered list. -/
def numbered : Nat → List String → String
  | _, [] => ""
  | i, name :: rest => line s!"  {i}. {name}" ++ numbered (i + 1) rest

/-- What a message writes to standard output. -/
def stdout (style : Style) : Message → String
  | .heading title => headingText title
  | .runStarted workflow source actions dry =>
    line ("\nRUN STARTED" ++ if dry then " (dry run)" else "") ++
      line s!"Workflow: {workflow}" ++ line s!"Source: {source}" ++ line s!"Actions: {actions}" ++
      line ""
  | .actionStarted name => line s!"---executing action {name}---"
  | .image name => line s!"Using docker image {name}"
  | .command words => line ("will run: " ++ " ".intercalate words)
  | .plan workflow names => headingText s!"PLAN: {workflow}" ++ numbered 1 names
  | .actionFailed name code => line s!"ACTION FAILED: {name}" ++ line s!"Exit code: {code}"
  | .info text => line text
  | .usage true => style.usagePage
  | .violation _ | .cycle _ | .error _ _ _ | .usage false | .trace | .debug _ => ""

/-- The lines of a cycle. -/
def cycleLines : List (String × String) → String
  | [] => ""
  | (name, need) :: rest => line s!"{name} -> {need}" ++ cycleLines rest

/-- What a message writes to standard error. -/
def stderr (style : Style) : Message → String
  | .violation text => line text
  | .cycle edges => line "actions are cycled" ++ cycleLines edges
  | .error title message hint? =>
    line s!"\nERROR: {title}" ++ line message ++
      match hint? with
      | some "" | none => ""
      | some hint => line s!"\n{hint}"
  | .usage false => style.usagePage
  | .trace => if style.debug then style.tracePage else ""
  | .debug text => if style.debug then line s!"[DEBUG] {text}" else ""
  | .heading _ | .runStarted _ _ _ _ | .actionStarted _ | .image _ | .command _ | .plan _ _
  | .actionFailed _ _ | .info _ | .usage true => ""

end Message

/-- What messages write to standard output, one after the other. -/
def stdoutText (style : Style) (messages : List Message) : String :=
  messages.foldr (fun m later => m.stdout style ++ later) ""

/-- What messages write to standard error, one after the other. -/
def stderrText (style : Style) (messages : List Message) : String :=
  messages.foldr (fun m later => m.stderr style ++ later) ""

end ContainerFlow
