/-
ContainerFlow.CommandLine.Request — what a command line asks for.

What a command line asks for.  Options of the whole program come first, then the name of a command,
then the options of the command and the path it is to work on.  An option that is not given may be
set in the environment.

Words that make no sense are refused before a request for help is answered; help is given before
the path is looked at, and the path is looked at before the words are counted.  Words that stand
where the name of a command should are refused, unless they are options that ask for help.
-/
import ContainerFlow.CommandLine.Options
import ContainerFlow.WorkflowFile

namespace ContainerFlow.CommandLine

/-- The commands. -/
inductive Command where
  | check
  | plan
  | run
  deriving DecidableEq, Repr

namespace Command

/-- The command of a name. -/
def ofName? : String → Option Command
  | "check" => some .check
  | "plan" => some .plan
  | "run" => some .run
  | _ => none

/-- The option that asks for help, which every command has. -/
def helpOption : OptionSpec := ⟨.help, "--help", none, false⟩

/-- The option that says which file to read, which every command has. -/
def fileOption : OptionSpec := ⟨.workflowFile, "--workflow-file", none, true⟩

/-- The options of a command. -/
def options : Command → List OptionSpec
  | .check => [fileOption, helpOption]
  | .plan => [fileOption, ⟨.json, "--json", none, false⟩, helpOption]
  | .run =>
    [fileOption, ⟨.dry, "--dry", some 'd', false⟩, ⟨.docker, "--docker", none, true⟩,
     ⟨.keepWorkspace, "--keep-workspace", none, false⟩, helpOption]

end Command

/-- The options of the whole program. -/
def programOptions : List OptionSpec := [⟨.debug, "--debug", none, false⟩, Command.helpOption]

/-- What a command line asks for. -/
structure Request where
  debug : Bool
  command : Command
  path : String
  workflowFile : String
  json : Bool
  dry : Bool
  docker : String
  keepWorkspace : Bool
  deriving DecidableEq, Repr

/-- What a command line comes to. -/
inductive Asked where
  | help
  | misuse (why : Misuse)
  /-- The path is none. -/
  | defect (d : Defect)
  | request (r : Request)
  deriving DecidableEq, Repr

/-- Names of the environment and what they are set to. -/
abbrev Environment := List (String × String)

/-- What a name is set to; a name that is set to nothing counts as not set. -/
def fromEnvironment (env : Environment) (name : String) : Option String :=
  ((env.find? (·.1 = name)).map Prod.snd).filter (· ≠ "")

/-- Where homes are in an environment, which may say where one's own is; it may also set it to
nothing. -/
def homesIn (env : Environment) (homes : Homes) : Homes :=
  match env.find? (·.1 = "HOME") with
  | some set => { homes with own := set.2 }
  | none => homes

/-- The request of a command with these parts. -/
def Request.ofParts (env : Environment) (debug : Bool) (command : Command) (p : Parts)
    (path : String) : Request where
  debug := debug
  command := command
  path := path
  workflowFile :=
    ((p.text? .workflowFile).or (fromEnvironment env "ACTIONFLOW_WORKFLOW_FILE")).getD
      WorkflowFile.defaultPlace
  json := p.has .json
  dry := p.has .dry
  docker := ((p.text? .docker).or (fromEnvironment env "ACTIONFLOW_DOCKER")).getD "docker"
  keepWorkspace := p.has .keepWorkspace

/-- The repository that a request is about. -/
def Request.repository (r : Request) : Path := Path.ofText r.path

/-- The workflow file that a request names, when its path is a repository. -/
def Request.workflowPath (r : Request) : Path := r.repository.join (.ofText r.workflowFile)

/-- The request of a command with these parts that is to work on a path; the words after it are too
many. -/
def requestFor (env : Environment) (debug : Bool) (command : Command) (p : Parts) (path : String)
    (more : List String) : Asked :=
  if Path.holdsZero path then .defect (.path ⟨.zeroCharacter, .ofText path⟩)
  else
    match more with
    | [] => .request (.ofParts env debug command p path)
    | word :: _ => .misuse (.tooManyWords word)

/-- Reads the words behind the name of a command. -/
def readCommand (env : Environment) (debug : Bool) (command : Command) (words : List String) :
    Asked :=
  match readParts command.options true words with
  | .error why => .misuse why
  | .ok p =>
    if p.has .help then .help
    else
      match p.words with
      | [] => requestFor env debug command p Path.herePart []
      | path :: more => requestFor env debug command p path more

/-- Reads words of which the first, `name`, is not the name of a command.  Behind the two hyphens
that end the options of the program it may be an option itself, and may ask for help. -/
def readStray (name : String) (rest : List String) : Asked :=
  match readParts programOptions false (name :: rest) with
  | .error why => .misuse why
  | .ok p => if p.has .help then .help else .misuse (.unknownCommand name)

/-- Reads a command line. -/
def read (env : Environment) (words : List String) : Asked :=
  match readParts programOptions false words with
  | .error why => .misuse why
  | .ok p =>
    if p.has .help then .help
    else
      match p.words with
      | [] => .misuse .noCommand
      | name :: rest =>
        match Command.ofName? name with
        | some command => readCommand env (p.has .debug) command rest
        | none => readStray name rest

end ContainerFlow.CommandLine
