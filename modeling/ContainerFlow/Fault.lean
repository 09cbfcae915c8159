/-
ContainerFlow.Fault — everything that can stop the work on a workflow, and how it reads.

Everything that can stop the work on a workflow, as causes; the wording of every cause stands here
and nowhere else.

A *failure* is the user's business: something in the file, the file itself, or a program that is
needed and fails.  It has a code, a message, details for other programs and, where it is about a
place in the file, a position.

A *defect* is what nothing in the program provides for: a promise that one part of it made to
another and did not keep, such as the number of an action that is not there, or something that the
system refuses, such as a path that it does not take.
-/
import ContainerFlow.Token
import ContainerFlow.Value
import ContainerFlow.Policy.Violation
import ContainerFlow.Path.Fault

namespace ContainerFlow

/-! ## Causes of failures -/

/-- What the reader of a file was waiting for. -/
inductive Expectation where
  | blockHead
  | string
  | name
  | symbol (s : Symbol)
  | value
  deriving DecidableEq, Repr

/-- What messages call the thing that was waited for. -/
def Expectation.words : Expectation → String
  | .blockHead => "'workflow' or 'action'"
  | .string => "string"
  | .name => "ident"
  | .symbol s => Text.quoted s.char.toString
  | .value => "string, array or map"

/-- Why a text is no workflow file. -/
inductive Malformation where
  | unterminatedString
  | unexpectedCharacter (c : Char)
  /-- A lexeme, or the end of the text, stands where something else has to. -/
  | unexpectedLexeme (wanted : Expectation) (found : Option Lexeme)
  /-- A reason that is given in words. -/
  | noted (message : String)
  deriving DecidableEq, Repr

/-- What messages call a lexeme that was found, or the end of the text. -/
def describeFound : Option Lexeme → String
  | some lexeme => Text.quoted lexeme.text
  | none => "end of input"

/-- A malformation in words. -/
def Malformation.message : Malformation → String
  | .unterminatedString => "unterminated string literal"
  | .unexpectedCharacter c => s!"unexpected character {Text.quoted c.toString}"
  | .unexpectedLexeme wanted found => s!"expected {wanted.words}, found {describeFound found}"
  | .noted message => message

/-- Why the current revision of a repository could not be found out. -/
inductive RevisionFault where
  | notInstalled
  | exited (args : List String) (code : Int)
  /-- A reason that is given in words. -/
  | noted (message : String)
  deriving DecidableEq, Repr

/-- A revision fault in words. -/
def RevisionFault.message : RevisionFault → String
  | .notInstalled => "git command not found"
  | .exited args code =>
    "git " ++ " ".intercalate args ++ s!" didn't exit successfully (exit={code})"
  | .noted message => message

/-- The causes of failures. -/
inductive Cause where
  | malformed (why : Malformation)
  | typeMismatch (expected actual : String)
  | duplicateKey (key : String)
  | missingKey (key : String)
  | unexpectedKey (key : String)
  | duplicateAction (name : String)
  | unknownAction (referrer name : String)
  | multipleWorkflows
  | missingWorkflow
  | unknownTrigger (trigger : String)
  | rejected (violations : List Policy.Violation)
  /-- The actions need one another in a loop: `first`, then `rest`, then `first` again. -/
  | cycle (first : String) (rest : List String)
  | fileNotFound (path : String)
  | fileUnreadable (path reason : String)
  | unsupportedImage (action uses : String)
  | containersUnavailable (binary : String)
  | revision (why : RevisionFault)
  deriving DecidableEq, Repr

/-! ## Cycles -/

/-- The names on a cycle, each once. -/
def cycleNames (first : String) (rest : List String) : List String := first :: rest

/-- The needs that make up a cycle, the one that closes it last. -/
def cycleEdges (first : String) (rest : List String) : List (String × String) :=
  (first :: rest).zip (rest ++ [first])

/-- A cycle from its first name round to its first name. -/
def cyclePath (first : String) (rest : List String) : String :=
  " -> ".intercalate (first :: rest ++ [first])

namespace Cause

/-! ## Codes, messages, details -/

/-- The short name of a cause, for other programs. -/
def code : Cause → String
  | .malformed _ => "syntax"
  | .typeMismatch _ _ => "type_mismatch"
  | .duplicateKey _ => "duplicate_key"
  | .missingKey _ => "missing_required_key"
  | .unexpectedKey _ => "unexpected_key"
  | .duplicateAction _ => "duplicate_action"
  | .unknownAction _ _ => "unknown_action"
  | .multipleWorkflows => "multiple_workflows"
  | .missingWorkflow => "missing_workflow"
  | .unknownTrigger _ => "unknown_trigger"
  | .rejected _ => "lint"
  | .cycle _ _ => "cycle"
  | .fileNotFound _ => "workflow_not_found"
  | .fileUnreadable _ _ => "workflow_unreadable"
  | .unsupportedImage _ _ => "unsupported_image"
  | .containersUnavailable _ => "docker_unavailable"
  | .revision _ => "git"

/-- The short name as a title for people: blanks in place of low lines. -/
def title (c : Cause) : String :=
  String.ofList (c.code.toList.map fun c => if c = '_' then ' ' else c)

/-- What went wrong, in words, without the place. -/
def message : Cause → String
  | .malformed why => why.message
  | .typeMismatch expected actual => s!"expected {expected}, got {actual}"
  | .duplicateKey key => s!"key {key} redefined"
  | .missingKey key => s!"key {key} required but not set"
  | .unexpectedKey key => s!"unexpected key {key}"
  | .duplicateAction name => s!"action with name {name} already defined"
  | .unknownAction referrer name => s!"{referrer} refers to unknown action {name}"
  | .multipleWorkflows => "multiple workflows are not supported"
  | .missingWorkflow => "no workflows found"
  | .unknownTrigger trigger => s!"unknown workflow trigger: {trigger}"
  | .rejected violations => s!"workflow failed validation with {violations.length} error(s)"
  | .cycle first rest => s!"actions are cycled: {cyclePath first rest}"
  | .fileNotFound path => s!"{path} does not exist"
  | .fileUnreadable path reason => s!"cannot read {path}: {reason}"
  | .unsupportedImage action uses =>
    s!"action '{action}' uses '{uses}': only pre-built image references (docker://*) " ++
      "are supported currently"
  | .containersUnavailable binary => s!"failed to start docker ({binary})"
  | .revision why => why.message

/-- What the user may do about it. -/
def hint? : Cause → Option String
  | .containersUnavailable _ => some "Install Docker and ensure the daemon is running."
  | _ => none

/-- A detail of a failure: a text or a count. -/
inductive Detail where
  | text (text : String)
  | count (n : Nat)
  deriving DecidableEq, Repr

/-- The details of a cause by name, for other programs. -/
def details : Cause → List (String × Detail)
  | .typeMismatch expected actual => [("expected", .text expected), ("actual", .text actual)]
  | .duplicateKey key | .missingKey key | .unexpectedKey key => [("key", .text key)]
  | .duplicateAction name => [("action", .text name)]
  | .unknownAction referrer name => [("referrer", .text referrer), ("action", .text name)]
  | .unknownTrigger trigger => [("trigger", .text trigger)]
  | .rejected violations => [("violations", .count violations.length)]
  | .cycle first rest => [("cycle", .text (cyclePath first rest))]
  | .fileNotFound path => [("path", .text path)]
  | .fileUnreadable path reason => [("path", .text path), ("reason", .text reason)]
  | .unsupportedImage action uses => [("action", .text action), ("uses", .text uses)]
  | .containersUnavailable binary =>
    match hint? (.containersUnavailable binary) with
    | some hint => [("hint", .text hint)]
    | none => []
  | .malformed _ | .multipleWorkflows | .missingWorkflow | .revision _ => []

end Cause

/-- Why a file that holds no text is unreadable. -/
def notUtf8Reason (offset : Nat) : String := s!"not valid UTF-8 at byte {offset}"

/-- A cause, and the place in the file that it is about. -/
structure Failure where
  cause : Cause
  position : Option Position
  deriving DecidableEq, Repr

/-- What other programs are told of a failure. -/
structure Report where
  code : String
  /-- What went wrong, in words, without the place. -/
  message : String
  position : Option Position
  details : List (String × Cause.Detail)
  deriving DecidableEq, Repr

/-- What went wrong, in words, after the place if there is one. -/
def Report.text (r : Report) : String :=
  match r.position with
  | some position => s!"{position.render}: {r.message}"
  | none => r.message

/-- The report of a failure. -/
def Failure.report (f : Failure) : Report :=
  ⟨f.cause.code, f.cause.message, f.position, f.cause.details⟩

/-- What went wrong, in words, after the place if there is one. -/
def Failure.message (f : Failure) : String := f.report.text

/-! ## Refusals -/

/-- An entry of a directory that a copy of the directory has to do without: how its path is written,
how the path of its copy would be, and why it is not copied. -/
structure LostEntry where
  source : String
  target : String
  reason : String
  deriving DecidableEq, Repr

namespace LostEntry

/-- The entry between these paths that is lost because a path is too long, or because the system
does not let it be copied.  Its own path is noticed first, that of its copy last. -/
def between (source target : String) (refusal? : Option String) : LostEntry :=
  ⟨source, target,
    if Path.fits source then refusal?.getD (PathProblem.tooLong.message target)
    else PathProblem.tooLong.message source⟩

/-- A lost entry in words: the two paths, and what is wrong. -/
def message (e : LostEntry) : String :=
  "(" ++ ", ".intercalate ([e.source, e.target, e.reason].map Text.quoted) ++ ")"

end LostEntry

/-- What is asked of the system and refused. -/
inductive Refusal where
  /-- Entries of a directory are left out of its copy. -/
  | entries (lost : List LostEntry)
  /-- Anything else, in the words of the system. -/
  | said (text : String)
  deriving DecidableEq, Repr

/-- A refusal in words. -/
def Refusal.message : Refusal → String
  | .entries lost => "[" ++ ", ".intercalate (lost.map LostEntry.message) ++ "]"
  | .said text => text

/-! ## Defects -/

/-- What nothing in the program provides for. -/
inductive Defect where
  /-- A block of a kind that no reader of files makes. -/
  | unknownBlockKind (kind : String)
  /-- A bare scalar where a value belongs. -/
  | notAValue (scalar : Value.Scalar)
  /-- A search was told to finish a node while none is open. -/
  | noOpenNode
  /-- The number of an action that the workflow does not have. -/
  | actionOutOfRange (id : Nat)
  /-- A cycle without a node. -/
  | emptyCycle
  /-- A path that cannot be followed where one that can is taken for granted. -/
  | path (fault : PathFault)
  /-- The system refuses to copy something, or to start a program, so that this is lost. -/
  | lost (refusal : Refusal)
  /-- Directories inside one another, deeper than a copy goes. -/
  | tooDeep
  deriving DecidableEq, Repr

/-- A defect in words. -/
def Defect.message : Defect → String
  | .unknownBlockKind kind => s!"unknown block kind: {Text.quoted kind}"
  | .notAValue scalar => s!"not a workflow value: {scalar.spelling}"
  | .noOpenNode => "pop from empty list"
  | .actionOutOfRange _ => "tuple index out of range"
  | .emptyCycle => "list index out of range"
  | .path fault => fault.message
  | .lost refusal => refusal.message
  | .tooDeep => "maximum recursion depth exceeded"

/-- What can stop the work on a workflow. -/
inductive Fault where
  | failure (failure : Failure)
  | defect (defect : Defect)
  deriving DecidableEq, Repr

namespace Fault

/-- A failure at a place of the file. -/
def atPosition (cause : Cause) (position : Position) : Fault := .failure ⟨cause, some position⟩

/-- A failure that has no place in the file. -/
def ofCause (cause : Cause) : Fault := .failure ⟨cause, none⟩

/-- A fault in words. -/
def message : Fault → String
  | .failure f => f.message
  | .defect d => d.message

end Fault

end ContainerFlow
