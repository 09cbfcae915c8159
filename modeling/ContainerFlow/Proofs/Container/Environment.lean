/-
ContainerFlow.Proofs.Container.Environment — which variables a container
sees, and with which texts.

The variables of the runner are bound over those that an action declares.
Three things have to come together so that nothing else is lost: names
have no equals sign, so that a word of the command can be cut where it
was put together; no declared name starts as those of the service do; and
binding a name again leaves it in its place.

The main statement is `declared_reaches_container`.
-/
import Mathlib
import ContainerFlow.Proofs.Bindings
import ContainerFlow.Proofs.Container

namespace ContainerFlow.Container

open CommandLine (splitAtEquals)

/-! ## Variables -/

/-- The variables that an action declares, and over them the runner's. -/
structure Overlays (env : Bindings) (w : Workflow) (a : Action) (commit : String) : Prop where
  /-- No name is bound twice. -/
  distinct : env.names.Nodup
  /-- Declared names come first, as they are declared. -/
  order : env.names = a.env.names ++ runnerNames.filter (· ∉ a.env.names)
  /-- The runner's variables have the runner's texts. -/
  runner : ∀ entry ∈ [("HOME", "/github/home"), ("GITHUB_WORKFLOW", w.name),
      ("GITHUB_ACTION", a.name), ("GITHUB_EVENT_NAME", "push"),
      ("GITHUB_EVENT_PATH", "/github/workflow/event.json"),
      ("GITHUB_WORKSPACE", "/github/workspace"), ("GITHUB_SHA", commit),
      ("GH_ACTIONS_RUNNER_LOCAL", "1")],
    env.get? entry.1 = some entry.2
  /-- Declared variables keep their texts, unless they have one of these two names. -/
  declared : ∀ entry ∈ a.env.entries, entry.1 ≠ "HOME" → entry.1 ≠ "GH_ACTIONS_RUNNER_LOCAL" →
    env.get? entry.1 = some entry.2

theorem nodup_runnerNames : runnerNames.Nodup := by decide

/-- All but two of the runner's names start as those of the service do. -/
theorem notMem_runnerNames {name : String} (hservice : ¬ "GITHUB_".toList <+: name.toList)
    (hhome : name ≠ "HOME") (hlocal : name ≠ "GH_ACTIONS_RUNNER_LOCAL") : name ∉ runnerNames := by
  have hall : ∀ other ∈ runnerNames, other ≠ "HOME" → other ≠ "GH_ACTIONS_RUNNER_LOCAL" →
      "GITHUB_".toList <+: other.toList := by
    decide
  exact fun hmem => hservice (hall name hmem hhome hlocal)

theorem overlays_environment {w : Workflow} {a : Action}
    (hnames : ∀ name ∈ a.env.names, ¬ "GITHUB_".toList <+: name.toList) (commit : String) :
    Overlays (environment w a commit) w a commit := by
  have hrunner := names_runnerVariables w a commit
  have hnodup : ((runnerVariables w a commit).map Prod.fst).Nodup :=
    hrunner ▸ nodup_runnerNames
  constructor
  case distinct => exact (environment w a commit).distinct
  case order => rw [environment, Bindings.names_insertAll hnodup, hrunner]
  case runner => exact fun entry hentry => Bindings.get?_insertAll_of_mem hnodup hentry
  case declared =>
    intro entry hentry hhome hlocal
    have hname := notMem_runnerNames (hnames _ (List.mem_map_of_mem hentry)) hhome hlocal
    rw [environment, Bindings.get?_insertAll_of_notMem (hrunner ▸ hname)]
    exact Bindings.get?_of_mem hentry

/-! ## Words -/

/-- The words set the variables, one after the other and each with two words, before they say where
to work. -/
def Sets (words : List String) (env : Bindings) : Prop :=
  ∃ texts after : List String,
    words = (texts.flatMap fun text => ["--env", text]) ++ "--workdir" :: after ∧
    "--workdir" ∉ texts ∧
    texts.map splitAtEquals = env.entries.map fun entry => (entry.1, some entry.2)

theorem sets_wordsFor {w : Workflow} {a : Action} {s : Setup} {name : String}
    (hnames : ∀ entry ∈ (environment w a s.commit).entries, '=' ∉ entry.1.toList) :
    ∃ words, wordsFor w a s name = s.binary :: "run" :: "--rm" :: words ∧
      Sets words (environment w a s.commit) := by
  let texts := (environment w a s.commit).entries.map fun entry => entry.1 ++ "=" ++ entry.2
  have hsplit : ∃ after, optionWords w a s ++ imageWords a name =
      (texts.flatMap fun text => ["--env", text]) ++ "--workdir" :: after := by
    rw [optionWords, List.append_assoc, List.flatMap_map]
    exact ⟨_, rfl⟩
  obtain ⟨after, hafter⟩ := hsplit
  refine ⟨optionWords w a s ++ imageWords a name, rfl, texts, after, hafter, ?_, ?_⟩
  · -- The words that set variables have an equals sign.
    intro hmem
    obtain ⟨entry, -, hentry⟩ := List.mem_map.mp hmem
    have hequals : '=' ∈ "--workdir".toList := by
      rw [← hentry]
      simp
    exact absurd hequals (by decide)
  · rw [List.map_map]
    exact List.map_congr_left fun entry hentry => splitAtEquals_append (hnames entry hentry) _

/-! ## Main result -/

/-- **A container sees what its action declares, under any name that is not the runner's.**  The
variables of a compiled action are those it declares and over them the runner's, and the command of
an action, which there is when it uses an image, sets just these. -/
theorem declared_reaches_container {text : String} {w : Workflow} {a : Action}
    (h : (Workflow.compile text).result = .ok w) (ha : a ∈ w.actions) :
    (∀ commit, Overlays (environment w a commit) w a commit) ∧
    ∀ s : Setup, ((∃ ws, command w a s = .ok ws) ↔ ∃ name, a.uses = "docker://" ++ name) ∧
      ∀ ws, command w a s = .ok ws → ∃ words, ws = s.binary :: "run" :: "--rm" :: words ∧
        Sets words (environment w a s.commit) := by
  constructor
  · intro commit
    refine overlays_environment ?_ commit
    obtain ⟨-, hnone⟩ := Workflow.compile_eq_ok_iff.mp h
    exact Policy.namesFound_eq_nil_iff.mp (Policy.allFound_eq_nil_iff.mp hnone).1 a ha
  · intro s
    constructor
    · constructor
      · rintro ⟨ws, hws⟩
        obtain ⟨name, hname, -⟩ := map_eq_ok_iff.mp hws
        exact ⟨name, image_eq_ok_iff.mp hname⟩
      · rintro ⟨name, hname⟩
        exact ⟨_, map_eq_ok_iff.mpr ⟨name, image_eq_ok_iff.mpr hname, rfl⟩⟩
    · intro ws hws
      obtain ⟨name, -, rfl⟩ := map_eq_ok_iff.mp hws
      exact sets_wordsFor (equals_notMem_of_mem_environment h ha s.commit)

/-- An action that declares variables with whatever texts, and among them the home. -/
def greetingText : String :=
  "workflow \"w\" \x7b on = \"push\" resolves = \"greet\" \x7d
action \"greet\" \x7b uses = \"docker://i\"
  env = \x7b RULE = \"a=b = c\" HOME = \"/root\" NONE = \"\" \x7d \x7d\n"

def greet : Action :=
  ⟨"greet", "docker://i", none, none, [], .ofList [("RULE", "a=b = c"), ("HOME", "/root"),
    ("NONE", "")], []⟩

def greeting : Workflow where
  name := "w"
  trigger := .push
  depends := [0]
  actions := [greet]

theorem compile_greetingText : (Workflow.compile greetingText).result = .ok greeting := by
  have hscan : scan greetingText = scan greetingText := rfl
  conv_rhs at hscan => cbv
  refine Workflow.compile_of_steps ?blocks ?ds hscan ?read ?define ?resolve (by cbv)
  case read =>
    rw [readBlocks_of_ok (by cbv), readBlocks_of_ok (by cbv), readBlocks]
    rfl
  case define =>
    cbv
    rfl
  case resolve => cbv

/-- Equals signs, blanks and nothing at all reach the container, and another home does not. -/
theorem declared_reaches_container_greeting :
    let env := environment greeting greet "abc"
    (Workflow.compile greetingText).result = .ok greeting ∧ greet ∈ greeting.actions ∧
    env.names = ["RULE", "HOME", "NONE", "GITHUB_WORKFLOW", "GITHUB_ACTION", "GITHUB_EVENT_NAME",
      "GITHUB_EVENT_PATH", "GITHUB_WORKSPACE", "GITHUB_SHA", "GH_ACTIONS_RUNNER_LOCAL"] ∧
    env.get? "RULE" = some "a=b = c" ∧ env.get? "HOME" = some "/github/home" ∧
    env.get? "NONE" = some "" ∧
    ∃ words, command greeting greet ⟨"abc", "/s/w", "/s/h", "docker"⟩ =
      .ok ("docker" :: "run" :: "--rm" :: words) ∧ Sets words env := by
  intro env
  have ha : greet ∈ greeting.actions := List.mem_singleton.mpr rfl
  obtain ⟨hvariables, hcommand⟩ := declared_reaches_container compile_greetingText ha
  obtain ⟨-, horder, hrunner, hdeclared⟩ := hvariables "abc"
  obtain ⟨hruns, hwords⟩ := hcommand ⟨"abc", "/s/w", "/s/h", "docker"⟩
  obtain ⟨ws, hws⟩ := hruns.mpr ⟨"i", rfl⟩
  obtain ⟨words, rfl, hsets⟩ := hwords ws hws
  refine ⟨compile_greetingText, ha, ?_, ?_, ?_, ?_, words, hws, hsets⟩
  · exact horder.trans (by decide)
  · exact hdeclared ("RULE", "a=b = c") (by decide) (by decide) (by decide)
  · exact hrunner ("HOME", "/github/home") (by simp)
  · exact hdeclared ("NONE", "") (by decide) (by decide) (by decide)

end ContainerFlow.Container
