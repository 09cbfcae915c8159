/-
ContainerFlow.Proofs.Run.Dry — a dry run shows what a real run would
start.

A dry run goes through the actions as a real one does and ends where an
image cannot be run.  Up to there it shows one command for each action
(`commands_actions_dry`), and starts nothing.  A real run of the same
actions starts the first of these commands, and all of them if it ends
with success (`starts_prefix_dry`), whatever its processes do.
-/
import ContainerFlow.Proofs.Run.Stop

namespace ContainerFlow

/-! ## Commands that are shown -/

/-- The words of a message that shows a command. -/
def Message.command? : Message → Option (List String)
  | .command words => some words
  | _ => none

/-- The commands that messages show, in order. -/
def shownCommands (messages : List Message) : List (List String) :=
  messages.filterMap Message.command?

@[simp] theorem shownCommands_nil : shownCommands [] = [] := rfl

@[simp] theorem shownCommands_append (first second : List Message) :
    shownCommands (first ++ second) = shownCommands first ++ shownCommands second :=
  List.filterMap_append

@[simp] theorem shownCommands_command (words : List String) (rest : List Message) :
    shownCommands (.command words :: rest) = words :: shownCommands rest := rfl

@[simp] theorem shownCommands_actionStarted (name : String) (rest : List Message) :
    shownCommands (.actionStarted name :: rest) = shownCommands rest := rfl

@[simp] theorem shownCommands_image (name : String) (rest : List Message) :
    shownCommands (.image name :: rest) = shownCommands rest := rfl

/-- The image of the action is one that can be run. -/
def Action.isSupported (a : Action) : Bool := "docker://".toList.isPrefixOf a.uses.toList

namespace Container

variable {a : Action}

theorem image_of_isSupported (h : a.isSupported) : ∃ image, Container.image a = .ok image :=
  ⟨_, if_pos h⟩

theorem image_of_not_isSupported (h : ¬ a.isSupported) :
    Container.image a = .error (.ofCause (.unsupportedImage a.name a.uses)) :=
  if_neg h

theorem command_of_image {image : String} (h : Container.image a = .ok image) (w : Workflow)
    (s : Setup) : command w a s = .ok (wordsFor w a s image) := by
  rw [command, h]
  rfl

end Container

namespace Run

variable {w : Workflow} {s : Container.Setup} {sys : System} {dry : Bool} {id : Nat}
  {ids rest : List Nat} {a : Action} {script : Script}

/-! ## One action -/

/-- An action whose image cannot be run is the last one, and shows no command. -/
theorem actions_of_not_isSupported (ha : w.action id = .ok a) (h : ¬ a.isSupported)
    (s : Container.Setup) (dry : Bool) (sys : System) (rest : List Nat) (script : Script) :
    actions w s dry sys (id :: rest) script =
      ⟨[.actionStarted a.name], [], .stopped (.ofCause (.unsupportedImage a.name a.uses))⟩ := by
  rw [actions, ha]
  simp only [action_of_image_error (Container.image_of_not_isSupported h)]

theorem shownCommands_actions_dry {image : String} (ha : w.action id = .ok a)
    (h : Container.image a = .ok image) (s : Container.Setup) (sys : System) (rest : List Nat)
    (script : Script) :
    shownCommands (actions w s true sys (id :: rest) script).messages =
      Container.wordsFor w a s image ::
        shownCommands (actions w s true sys rest script).messages := by
  have hstep := action_dry_of_image_ok h w s id script sys
  rw [actions_of_exited_zero ha (by rw [hstep]), hstep]
  simp [append]

/-- What starts for an action with an image: its command, or nothing if that is refused. -/
theorem starts_action_cases {image : String} (h : Container.image a = .ok image) (w : Workflow)
    (s : Container.Setup) (sys : System) (id : Nat) (script : Script) :
    (action w s false id a script sys).1.starts.map (·.words) = [Container.wordsFor w a s image] ∨
      (action w s false id a script sys).1.starts = [] ∧
        (action w s false id a script sys).1.ending ≠ .exited 0 := by
  cases htaken : sys.startError? (Container.wordsFor w a s image) with
  | none =>
    rw [action_of_image_ok h htaken]
    exact .inl rfl
  | some text =>
    rw [action_of_refused h htaken]
    exact .inr ⟨rfl, fun h => by cases h⟩

/-! ## Whole runs -/

/-- A dry run shows one command for each action, up to the first whose image cannot be run. -/
theorem commands_actions_dry {acts : List Action}
    (h : List.Forall₂ (fun id a => w.action id = .ok a) ids acts) (s : Container.Setup)
    (sys : System) (script : Script) :
    List.Forall₂ (fun a words => Container.command w a s = .ok words)
      (acts.takeWhile Action.isSupported)
      (shownCommands (actions w s true sys ids script).messages) := by
  induction h with
  | nil => exact .nil
  | @cons id a rest acts ha _ ih =>
    by_cases hsupported : a.isSupported
    · obtain ⟨image, himage⟩ := Container.image_of_isSupported hsupported
      rw [List.takeWhile_cons_of_pos hsupported, shownCommands_actions_dry ha himage]
      exact .cons (Container.command_of_image himage w s) ih
    · rw [List.takeWhile_cons_of_neg hsupported, actions_of_not_isSupported ha hsupported]
      exact .nil

/-- What a real run starts is what a dry one shows, as far as the real one comes: to the end if it
ends with success. -/
theorem starts_prefix_dry (w : Workflow) (s : Container.Setup) (sys : System) (ids : List Nat)
    (script other : Script) :
    (actions w s false sys ids script).starts.map (·.words) <+:
        shownCommands (actions w s true sys ids other).messages ∧
      ((actions w s false sys ids script).ending = .exited 0 →
        (actions w s false sys ids script).starts.map (·.words) =
          shownCommands (actions w s true sys ids other).messages) := by
  induction ids generalizing script with
  | nil => exact ⟨List.nil_prefix, fun _ => rfl⟩
  | cons id rest ih =>
    cases ha : w.action id with
    | error fault =>
      rw [actions_of_error ha, actions_of_error ha]
      exact ⟨List.nil_prefix, fun h => by cases h⟩
    | ok a =>
      by_cases hsupported : a.isSupported
      · obtain ⟨image, himage⟩ := Container.image_of_isSupported hsupported
        have hstarts := starts_action_cases himage w s sys id script
        rw [shownCommands_actions_dry ha himage]
        by_cases hzero : (action w s false id a script sys).1.ending = .exited 0
        · obtain ⟨hfirst, hall⟩ := ih (action w s false id a script sys).2
          have hwords := hstarts.resolve_right fun hrefused => hrefused.2 hzero
          rw [actions_of_exited_zero ha hzero, append, List.map_append, hwords]
          exact ⟨List.cons_prefix_cons.mpr ⟨rfl, hfirst⟩, fun h => congrArg _ (hall h)⟩
        · -- At most the one process has been started.
          rw [starts_actions_of_ne_zero ha hzero, ending_actions_of_ne_zero ha hzero]
          refine ⟨?_, fun h => absurd h hzero⟩
          rcases hstarts with hwords | ⟨hnone, -⟩
          · rw [hwords]
            exact List.cons_prefix_cons.mpr ⟨rfl, List.nil_prefix⟩
          · rw [hnone]
            exact List.nil_prefix
      · rw [actions_of_not_isSupported ha hsupported, actions_of_not_isSupported ha hsupported]
        exact ⟨List.nil_prefix, fun h => by cases h⟩

end Run

end ContainerFlow
