/-
ContainerFlow.Proofs.Container — commands, read back the way `docker run`
reads them.

A command is one flat list of words, and nearly all of them come from
the workflow file.  Which of them are options is settled by whoever
reads the list, from left to right (`Invocation.read`): a known option
takes the word behind it, whatever that looks like, and the first other
word is the image, unless it starts with a hyphen.

* `read_words` — what is written as options, an image and arguments is
  read as these, when the image does not start with a hyphen.
* `startsWithHyphen_of_read` — an image that starts with a hyphen is never
  read as one.
* `image_eq_ok_iff` — nothing keeps an action from having such an image.

The main statement is `read_command_iff`: variables, entry point and
arguments of an action are safe whatever they are, and the image is safe
exactly when it does not start with a hyphen.
-/
import Mathlib
import ContainerFlow.CommandLine.Options
import ContainerFlow.Container
import ContainerFlow.Proofs.Valid

namespace ContainerFlow.Container

open CommandLine (splitAtEquals)

/-! ## Images -/

/-- The image of an action is what `uses` has behind the scheme. -/
theorem image_eq_ok_iff {a : Action} {name : String} :
    image a = .ok name ↔ a.uses = imageScheme ++ name := by
  unfold image
  split
  · next hscheme =>
    obtain ⟨rest, hrest⟩ := List.isPrefixOf_iff_prefix.mp hscheme
    have huses : a.uses = imageScheme ++ String.ofList rest := by
      rw [← String.toList_inj, ← hrest, String.toList_append, String.toList_ofList]
    rw [Except.ok.injEq, huses, String.append_right_inj, String.toList_append,
      ← String.length_toList, List.drop_left, String.toList_ofList]
  · next hscheme =>
    refine ⟨fun h => (nomatch h), fun huses => absurd ?_ hscheme⟩
    rw [List.isPrefixOf_iff_prefix, huses, String.toList_append]
    exact List.prefix_append _ _

/-! ## Reading a command -/

/-- The option that takes no text. -/
def removeOption : String := "--rm"

/-- The options that take the next word as their text. -/
def textOptions : List String := ["--env", "--workdir", "--volume", "--entrypoint"]

/-- Whether a word, where an option may stand, is one. -/
def startsWithHyphen (word : String) : Bool := word.toList.head? = some '-'

theorem startsWithHyphen_iff {word : String} :
    startsWithHyphen word ↔ "-".toList <+: word.toList := by
  have hhyphen : "-".toList = ['-'] := rfl
  rw [startsWithHyphen, decide_eq_true_iff, hhyphen]
  cases word.toList <;> simp [eq_comm]

/-- What the words of a command ask for. -/
structure Invocation where
  /-- The options that have a text, in order, with their texts. -/
  options : List (String × String)
  image : String
  /-- What the container is given. -/
  arguments : List String
  deriving DecidableEq, Repr

namespace Invocation

/-- Why words are no command. -/
inductive Misreading where
  /-- An option that is not known. -/
  | foreign (word : String)
  /-- No image, or no text behind an option. -/
  | incomplete
  deriving DecidableEq, Repr

/-- With options before the others. -/
def withOptions (options : List (String × String)) (i : Invocation) : Invocation :=
  { i with options := options ++ i.options }

/-- The words behind `run`, read from left to right. -/
def read : List String → Except Misreading Invocation
  | [] => .error .incomplete
  | word :: rest =>
    if word = removeOption then read rest
    else if word ∈ textOptions then
      match rest with
      | [] => .error .incomplete
      | text :: rest => (read rest).map (withOptions [(word, text)])
    else if startsWithHyphen word then .error (.foreign word)
    else .ok ⟨[], word, rest⟩

/-- The words that write options. -/
def optionWords (options : List (String × String)) : List String :=
  options.flatMap fun (name, text) => [name, text]

/-- The words that write options, an image and arguments. -/
def words (i : Invocation) : List String := optionWords i.options ++ i.image :: i.arguments

/-- The same option with each of these texts. -/
def named (name : String) (texts : List String) : List (String × String) := texts.map (name, ·)

/-- The texts of an option, in order. -/
def textsOf (name : String) (options : List (String × String)) : List String :=
  (options.filter (·.1 = name)).map Prod.snd

/-- The texts of an option of a command, in order. -/
def texts (i : Invocation) (name : String) : List String := textsOf name i.options

theorem textsOf_append (name : String) (options more : List (String × String)) :
    textsOf name (options ++ more) = textsOf name options ++ textsOf name more := by
  simp [textsOf]

theorem textsOf_named (name other : String) (texts : List String) :
    textsOf name (named other texts) = if other = name then texts else [] := by
  by_cases h : other = name <;> simp [textsOf, named, List.filter_map, Function.comp_def, h]

theorem read_removeOption (rest : List String) : read (removeOption :: rest) = read rest := by
  rw [read.eq_def]
  exact if_pos rfl

/-- An option with its text is read as such, whatever the text looks like. -/
theorem read_option {name : String} (hname : name ∈ textOptions) (text : String)
    (rest : List String) :
    read (name :: text :: rest) = (read rest).map (withOptions [(name, text)]) := by
  have hremove : name ≠ removeOption := by
    rintro rfl
    exact absurd hname (by decide)
  rw [read, if_neg hremove, if_pos hname]

theorem read_optionWords {options : List (String × String)}
    (hoptions : ∀ option ∈ options, option.1 ∈ textOptions) (rest : List String) :
    read (optionWords options ++ rest) = (read rest).map (withOptions options) := by
  induction options with
  | nil => cases h : read rest <;> simp [optionWords, h, Except.map, withOptions]
  | cons option options ih =>
    obtain ⟨hfirst, hlater⟩ := List.forall_mem_cons.mp hoptions
    have hstep := read_option hfirst option.2 (optionWords options ++ rest)
    rw [ih hlater] at hstep
    rw [show optionWords (option :: options) ++ rest
      = option.1 :: option.2 :: (optionWords options ++ rest) from rfl, hstep]
    cases read rest <;> rfl

/-- What is written is read, when the image cannot be taken for an option. -/
theorem read_words {i : Invocation} (hoptions : ∀ option ∈ i.options, option.1 ∈ textOptions)
    (himage : startsWithHyphen i.image = false) : read i.words = .ok i := by
  have hremove : i.image ≠ removeOption := by
    intro heq
    rw [heq] at himage
    exact absurd himage (by decide)
  have htext : i.image ∉ textOptions := by
    intro hmem
    have hall : ∀ name ∈ textOptions, startsWithHyphen name = true := by decide
    exact absurd (hall _ hmem) (by simp [himage])
  have hread : read (i.image :: i.arguments) = .ok ⟨[], i.image, i.arguments⟩ := by
    rw [read.eq_def]
    simp [hremove, htext, himage]
  rw [words, read_optionWords hoptions, hread]
  simp [Except.map, withOptions]

/-- What is read as an image does not start with a hyphen. -/
theorem startsWithHyphen_of_read {ws : List String} {i : Invocation} (h : read ws = .ok i) :
    startsWithHyphen i.image = false := by
  fun_induction read ws generalizing i with
  | case1 => cases h
  | case2 rest ih => exact ih h
  | case3 => cases h
  | case4 word _ _ text rest ih =>
    cases hrest : read rest with
    | error why => simp [hrest, Except.map] at h
    | ok j =>
      rw [hrest] at h
      cases h
      have hj := ih hrest
      exact hj
  | case5 => cases h
  | case6 word rest _ _ hhyphen =>
    cases h
    simpa using hhyphen

end Invocation

/-! ## The command of an action -/

open Invocation (named textsOf_append textsOf_named)

/-- What the command of an action is meant to ask for. -/
def invocation (w : Workflow) (a : Action) (s : Setup) (image : String) : Invocation where
  options :=
    named "--env" ((environment w a s.commit).entries.map fun entry => entry.1 ++ "=" ++ entry.2) ++
      named "--workdir" [workspacePlace] ++
      named "--volume" [s.workspaceDir ++ ":" ++ workspacePlace, s.homeDir ++ ":" ++ homePlace] ++
      named "--entrypoint" ((a.runs.getD []).take 1)
  image := image
  arguments := (a.runs.getD []).drop 1 ++ a.args.getD []

theorem imageWords_eq (a : Action) (image : String) :
    imageWords a image =
      Invocation.optionWords (named "--entrypoint" ((a.runs.getD []).take 1)) ++
        image :: ((a.runs.getD []).drop 1 ++ a.args.getD []) := by
  unfold imageWords
  split
  · next hruns => simp [hruns, Invocation.optionWords, named]
  · next hruns =>
    cases hdeclared : a.runs with
    | none => rfl
    | some ws =>
      cases ws with
      | nil => rfl
      | cons first rest => exact absurd hdeclared (hruns first rest)

/-- A command is written the way it is meant. -/
theorem wordsFor_eq (w : Workflow) (a : Action) (s : Setup) (image : String) :
    wordsFor w a s image =
      s.binary :: "run" :: removeOption :: (invocation w a s image).words := by
  have hvariable : variableWords = fun entry => ["--env", entry.1 ++ "=" ++ entry.2] := rfl
  simp [wordsFor, optionWords, hvariable, imageWords_eq, invocation, Invocation.words,
    Invocation.optionWords, named, List.flatMap_map, removeOption]

/-- The options of a command all have a text. -/
theorem mem_textOptions_of_mem {w : Workflow} {a : Action} {s : Setup} {image : String} :
    ∀ option ∈ (invocation w a s image).options, option.1 ∈ textOptions := by
  intro option hoption
  simp only [invocation, named, List.mem_append, List.mem_map] at hoption
  obtain ((⟨_, _, rfl⟩ | ⟨_, _, rfl⟩) | ⟨_, _, rfl⟩) | ⟨_, _, rfl⟩ := hoption <;>
    simp [textOptions]

/-! ## Names of variables -/

theorem equals_notMem_of_isName {cs : List Char} (h : IsName cs) : '=' ∉ cs := by
  obtain ⟨c, rest, rfl, hstart, hrest⟩ := h
  intro hmem
  rcases List.mem_cons.mp hmem with rfl | hmem
  · exact absurd hstart (by decide)
  · exact absurd (hrest _ hmem) (by decide)

/-- The names of the runner's variables. -/
def runnerNames : List String :=
  ["HOME", "GITHUB_WORKFLOW", "GITHUB_ACTION", "GITHUB_EVENT_NAME", "GITHUB_EVENT_PATH",
    "GITHUB_WORKSPACE", "GITHUB_SHA", "GH_ACTIONS_RUNNER_LOCAL"]

theorem names_runnerVariables (w : Workflow) (a : Action) (commit : String) :
    (runnerVariables w a commit).map Prod.fst = runnerNames := rfl

/-- No variable that a container sees has an equals sign in its name. -/
theorem equals_notMem_of_mem_environment {text : String} {w : Workflow} {a : Action}
    (h : (Workflow.compile text).result = .ok w) (ha : a ∈ w.actions) (commit : String) :
    ∀ entry ∈ (environment w a commit).entries, '=' ∉ entry.1.toList := by
  intro entry hentry
  have hname : entry.1 ∈ (environment w a commit).names := List.mem_map_of_mem hentry
  rcases Bindings.mem_names_insertAll.mp hname with hown | hrunner
  · exact equals_notMem_of_isName (Workflow.isName_of_compile h a ha entry.1 hown)
  · have hall : ∀ name ∈ runnerNames, '=' ∉ name.toList := by decide
    exact hall _ (names_runnerVariables w a commit ▸ hrunner)

/-- A name and a text are told apart by the equals sign between them. -/
theorem splitAtEquals_append {name : String} (h : '=' ∉ name.toList) (text : String) :
    splitAtEquals (name ++ "=" ++ text) = (name, some text) := by
  have hname : ∀ c ∈ name.toList, decide (c ≠ '=') = true := by
    intro c hc
    exact decide_eq_true fun heq => h (heq ▸ hc)
  have hchars : (name ++ "=" ++ text).toList = name.toList ++ '=' :: text.toList := by
    simp
  rw [splitAtEquals, hchars, List.takeWhile_append_of_pos hname, List.dropWhile_append_of_pos hname]
  simp

/-! ## Main result -/

/-- The words of a command ask for just this: the variables of the action in order, the directory to
work in and the two mounts, an entry point when the action says what to run, the image that it uses,
and for the rest what it says to run and its arguments. -/
structure Invocation.Says (i : Invocation) (w : Workflow) (a : Action) (s : Setup) : Prop where
  environment : (i.texts "--env").map splitAtEquals =
    (Container.environment w a s.commit).entries.map fun entry => (entry.1, some entry.2)
  workdir : i.texts "--workdir" = ["/github/workspace"]
  mounts : i.texts "--volume" =
    [s.workspaceDir ++ ":/github/workspace", s.homeDir ++ ":/github/home"]
  entryPoint : (i.texts "--entrypoint").length = if a.runs.isSome then 1 else 0
  uses : a.uses = "docker://" ++ i.image
  arguments : i.texts "--entrypoint" ++ i.arguments = a.runs.getD [] ++ a.args.getD []

/-- What a command is meant to ask for is just this. -/
theorem says_invocation {w : Workflow} {a : Action} {s : Setup} {name : String}
    (hruns : a.runs ≠ some []) (huses : a.uses = imageScheme ++ name)
    (hnames : ∀ entry ∈ (environment w a s.commit).entries, '=' ∉ entry.1.toList) :
    (invocation w a s name).Says w a s := by
  have hentry : (invocation w a s name).texts "--entrypoint" = (a.runs.getD []).take 1 := by
    simp [Invocation.texts, invocation, textsOf_append, textsOf_named]
  constructor
  case environment =>
    have htexts : (invocation w a s name).texts "--env" =
        (environment w a s.commit).entries.map fun entry => entry.1 ++ "=" ++ entry.2 := by
      simp [Invocation.texts, invocation, textsOf_append, textsOf_named]
    rw [htexts, List.map_map]
    exact List.map_congr_left fun entry hentry => splitAtEquals_append (hnames entry hentry) _
  case workdir => simp [Invocation.texts, invocation, textsOf_append, textsOf_named, workspacePlace]
  case mounts =>
    have hmounts : (invocation w a s name).texts "--volume" =
        [s.workspaceDir ++ ":" ++ workspacePlace, s.homeDir ++ ":" ++ homePlace] := by
      simp [Invocation.texts, invocation, textsOf_append, textsOf_named]
    rw [hmounts, String.append_assoc, String.append_assoc]
    rfl
  case entryPoint =>
    rw [hentry]
    cases hdeclared : a.runs with
    | none => rfl
    | some ws =>
      cases ws with
      | nil => exact absurd hdeclared hruns
      | cons first rest => rfl
  case uses => exact huses
  case arguments =>
    rw [hentry, invocation, ← List.append_assoc, List.take_append_drop]

/-- **What a workflow file says cannot become an option, unless it is the image**: read back from
behind `run`, the words of a command ask for just what the action says, when the image does not
start with a hyphen, and in no other case. -/
theorem read_command_iff {text : String} {w : Workflow} {a : Action} {name : String}
    (h : (Workflow.compile text).result = .ok w) (ha : a ∈ w.actions) (hname : image a = .ok name)
    (s : Setup) :
    ∃ ws, command w a s = .ok (s.binary :: "run" :: ws) ∧
      ((∃ i, Invocation.read ws = .ok i ∧ i.Says w a s) ↔ ¬ "-".toList <+: name.toList) := by
  refine ⟨removeOption :: (invocation w a s name).words, ?_, ?_⟩
  · rw [command, hname, ← wordsFor_eq]
    rfl
  have huses := image_eq_ok_iff.mp hname
  rw [Invocation.read_removeOption, ← startsWithHyphen_iff, Bool.not_eq_true]
  constructor
  · rintro ⟨i, hi, hasks⟩
    have himage : i.image = name := (String.append_right_inj _).mp (hasks.uses.symm.trans huses)
    exact himage ▸ Invocation.startsWithHyphen_of_read hi
  · intro hhyphen
    refine ⟨_, Invocation.read_words mem_textOptions_of_mem hhyphen, says_invocation ?_ huses ?_⟩
    · exact (Workflow.words_ne_nil_of_compile h a ha).1
    · exact equals_notMem_of_mem_environment h ha s.commit

/-- The words to run and the arguments of an action look like options, and are none. -/
theorem read_command_iff_release :
    let a : Action := ⟨"make", "docker://i", some ["make", "all"], some ["-j"], [], .empty, []⟩
    let s : Setup := ⟨"abc", "/s/w", "/s/h", "docker"⟩
    (Workflow.compile Workflow.releaseText).result = .ok Workflow.release ∧
    a ∈ Workflow.release.actions ∧ image a = .ok "i" ∧
    ∃ ws, command Workflow.release a s = .ok ("docker" :: "run" :: ws) ∧
      ((∃ i, Invocation.read ws = .ok i ∧ i.Says Workflow.release a s) ↔
        ¬ "-".toList <+: "i".toList) := by
  intro a s
  have ha : a ∈ Workflow.release.actions := by simp [a, Workflow.release]
  have himage : image a = .ok "i" := by decide
  exact ⟨Workflow.compile_releaseText, ha, himage,
    read_command_iff Workflow.compile_releaseText ha himage s⟩

/-! ## An image that is taken for an option -/

/-- An action whose image is an option, so that its argument comes to be the image. -/
def privilegedText : String :=
  "workflow \"w\" \x7b on = \"push\" resolves = \"a\" \x7d
action \"a\" \x7b uses = \"docker://--privileged\" args = \"alpine\" \x7d\n"

def privileged : Workflow where
  name := "w"
  trigger := .push
  depends := [0]
  actions := [⟨"a", "docker://--privileged", none, some ["alpine"], [], .empty, []⟩]

theorem compile_privilegedText : (Workflow.compile privilegedText).result = .ok privileged := by
  have hscan : scan privilegedText = scan privilegedText := rfl
  conv_rhs at hscan => cbv
  refine Workflow.compile_of_steps ?blocks ?ds hscan ?read ?define ?resolve (by cbv)
  case read =>
    rw [readBlocks_of_ok (by cbv), readBlocks_of_ok (by cbv), readBlocks]
    rfl
  case define =>
    cbv
    rfl
  case resolve => cbv

/-- A file that is compiled can have an option read that is none of the known ones. -/
theorem foreign_of_privileged :
    let a : Action := ⟨"a", "docker://--privileged", none, some ["alpine"], [], .empty, []⟩
    let s : Setup := ⟨"abc", "/s/w", "/s/h", "docker"⟩
    (Workflow.compile privilegedText).result = .ok privileged ∧ a ∈ privileged.actions ∧
    image a = .ok "--privileged" ∧
    ∃ ws, command privileged a s = .ok ("docker" :: "run" :: ws) ∧
      Invocation.read ws = .error (.foreign "--privileged") := by
  refine ⟨compile_privilegedText, by simp [privileged], by decide, _, rfl, ?_⟩
  decide

end ContainerFlow.Container
