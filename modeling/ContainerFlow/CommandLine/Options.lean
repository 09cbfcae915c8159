/-
ContainerFlow.CommandLine.Options — the words of a command line.

A command line is a list of words.  Words that start with a hyphen and go on are options; two
hyphens alone end the options; all other words, also a lone hyphen, are given to the command.

A long option starts with two hyphens.  One that takes a text finds it behind an equals sign or else
in the next word, whatever that looks like; one that takes none refuses an equals sign.  Short
options are letters, several of which may follow one hyphen.  Options are known by their whole names
only.
-/

namespace ContainerFlow.CommandLine

/-- What options are about. -/
inductive OptionKey where
  | debug
  | help
  | workflowFile
  | json
  | dry
  | docker
  | keepWorkspace
  deriving DecidableEq, Repr

/-- An option that a command knows. -/
structure OptionSpec where
  key : OptionKey
  /-- The long name, with its hyphens. -/
  long : String
  /-- The letter of the short name. -/
  short : Option Char
  takesText : Bool
  deriving DecidableEq, Repr

/-- Why a command line makes no sense. -/
inductive Misuse where
  | unknownOption (word : String)
  | textMissing (option : String)
  | textUnexpected (option : String)
  | noCommand
  | unknownCommand (word : String)
  | tooManyWords (word : String)
  | noDirectory (path : String)
  deriving DecidableEq, Repr

/-- What a word is. -/
inductive WordKind where
  /-- A word for the command. -/
  | plain
  /-- The end of the options. -/
  | optionsEnd
  /-- Options without texts. -/
  | flags (keys : List OptionKey)
  /-- An option with its text. -/
  | text (key : OptionKey) (text : String)
  /-- An option whose text is the next word. -/
  | textFollows (key : OptionKey) (option : String)
  /-- A word that makes no sense. -/
  | misuse (why : Misuse)
  deriving DecidableEq, Repr

/-- The text before the first equals sign, and the text behind it if there is one. -/
def splitAtEquals (word : String) : String × Option String :=
  let before := word.toList.takeWhile (· ≠ '=')
  match word.toList.dropWhile (· ≠ '=') with
  | [] => (word, none)
  | _ :: after => (String.ofList before, some (String.ofList after))

/-- The options that letters behind one hyphen name. -/
def shortKeys (specs : List OptionSpec) : List Char → Option (List OptionKey)
  | [] => some []
  | c :: rest =>
    match specs.find? fun spec => spec.short = some c && !spec.takesText with
    | some spec => (shortKeys specs rest).map (spec.key :: ·)
    | none => none

/-- What a word is among the words of a command with these options. -/
def wordKind (specs : List OptionSpec) (word : String) : WordKind :=
  match word.toList with
  | ['-', '-'] => .optionsEnd
  | '-' :: c :: rest =>
    let (name, text?) := splitAtEquals word
    match specs.find? fun spec => spec.long = name with
    | some spec =>
      match spec.takesText, text? with
      | true, some text => .text spec.key text
      | true, none => .textFollows spec.key name
      | false, some _ => .misuse (.textUnexpected name)
      | false, none => .flags [spec.key]
    | none =>
      if c = '-' then .misuse (.unknownOption word)
      else
        match shortKeys specs (c :: rest) with
        | some keys => .flags keys
        | none => .misuse (.unknownOption word)
  | _ => .plain

/-- The options and the words of a command line, each in order. -/
structure Parts where
  options : List (OptionKey × String)
  words : List String
  deriving DecidableEq, Repr

namespace Parts

/-- Parts with options before the others. -/
def withOptions (options : List (OptionKey × String)) (p : Parts) : Parts :=
  { p with options := options ++ p.options }

/-- Parts with a word before the others. -/
def withWord (word : String) (p : Parts) : Parts := { p with words := word :: p.words }

/-- Whether an option is there. -/
def has (p : Parts) (key : OptionKey) : Bool := p.options.any (·.1 = key)

/-- The text of an option; of several the last. -/
def text? (p : Parts) (key : OptionKey) : Option String :=
  (p.options.reverse.find? (·.1 = key)).map Prod.snd

end Parts

/-- The parts of a command line.  When `mixed`, options may stand behind words; otherwise everything
from the first word on is left as it is. -/
def readParts (specs : List OptionSpec) (mixed : Bool) : List String → Except Misuse Parts
  | [] => .ok ⟨[], []⟩
  | word :: rest =>
    match wordKind specs word with
    | .plain =>
      if mixed then (readParts specs mixed rest).map (·.withWord word) else .ok ⟨[], word :: rest⟩
    | .optionsEnd => .ok ⟨[], rest⟩
    | .flags keys => (readParts specs mixed rest).map (·.withOptions (keys.map (·, "")))
    | .text key text => (readParts specs mixed rest).map (·.withOptions [(key, text)])
    | .textFollows key option =>
      match rest with
      | text :: rest => (readParts specs mixed rest).map (·.withOptions [(key, text)])
      | [] => .error (.textMissing option)
    | .misuse why => .error why

end ContainerFlow.CommandLine
