/-
ContainerFlow.Container — the command that starts a container.

How an action becomes a command that starts its container.  Only images that are ready to be used
can be run; the rest of `uses` behind the scheme names the image.  The container sees the variables
of the action and, over them, those of the runner; it works in the workspace, and finds its home and
the workspace mounted at fixed places.  When the action says what to run, the first word of that
takes the place of the entry point of the image.
-/
import ContainerFlow.Workflow

namespace ContainerFlow.Container

/-! ## What containers see -/

/-- Where the workspace is mounted. -/
def workspacePlace : String := "/github/workspace"

/-- Where the home is mounted. -/
def homePlace : String := "/github/home"

/-- Where the description of the event would be. -/
def eventPlace : String := "/github/workflow/event.json"

/-- What a command needs to know beside the action. -/
structure Setup where
  commit : String
  workspaceDir : String
  homeDir : String
  binary : String
  deriving DecidableEq, Repr

/-! ## Images -/

/-- What `uses` has to start with. -/
def imageScheme : String := "docker://"

/-- The image that an action runs. -/
def image (a : Action) : Except Fault String :=
  if imageScheme.toList.isPrefixOf a.uses.toList then
    .ok (String.ofList (a.uses.toList.drop imageScheme.length))
  else .error (.ofCause (.unsupportedImage a.name a.uses))

/-! ## Variables -/

/-- The variables of the runner. -/
def runnerVariables (w : Workflow) (a : Action) (commit : String) : List (String × String) :=
  [("HOME", homePlace),
   ("GITHUB_WORKFLOW", w.name),
   ("GITHUB_ACTION", a.name),
   ("GITHUB_EVENT_NAME", w.trigger.name),
   ("GITHUB_EVENT_PATH", eventPlace),
   ("GITHUB_WORKSPACE", workspacePlace),
   ("GITHUB_SHA", commit),
   ("GH_ACTIONS_RUNNER_LOCAL", "1")]

/-- The variables of an action, those of the runner bound over them. -/
def environment (w : Workflow) (a : Action) (commit : String) : Bindings :=
  a.env.insertAll (runnerVariables w a commit)

/-! ## Commands -/

/-- The words that set a variable. -/
def variableWords (entry : String × String) : List String :=
  ["--env", entry.1 ++ "=" ++ entry.2]

/-- The words that set everything that does not come from the image. -/
def optionWords (w : Workflow) (a : Action) (s : Setup) : List String :=
  (environment w a s.commit).entries.flatMap variableWords ++
    ["--workdir", workspacePlace,
     "--volume", s.workspaceDir ++ ":" ++ workspacePlace,
     "--volume", s.homeDir ++ ":" ++ homePlace]

/-- The image, and what it is to do. -/
def imageWords (a : Action) (image : String) : List String :=
  match a.runs with
  | some (entryPoint :: rest) =>
    ["--entrypoint", entryPoint, image] ++ rest ++ a.args.getD []
  | _ => image :: a.args.getD []

/-- The words that start the container of an action from this image. -/
def wordsFor (w : Workflow) (a : Action) (s : Setup) (image : String) : List String :=
  [s.binary, "run", "--rm"] ++ optionWords w a s ++ imageWords a image

/-- The words that start the container of an action. -/
def command (w : Workflow) (a : Action) (s : Setup) : Except Fault (List String) :=
  (image a).map (wordsFor w a s)

end ContainerFlow.Container
