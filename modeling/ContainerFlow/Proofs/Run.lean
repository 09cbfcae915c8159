/-
ContainerFlow.Proofs.Run — which containers a run starts, and in which
order.

One action starts no container, or one that succeeds, or one that does
not; only in the second case the run goes on (`starts_cons_cases`).  It
starts none if it has no image that can be run, or if the system refuses
its command.  By
induction, the containers of a run are those of the first actions in
turn, and of all but the last it is known that they succeeded
(`Started`).

In the order of the scheduler an action stands behind all that it
needs.  So whatever it needs has been run, with success, when its
container starts (`needsFirst_of_started`).
-/
import ContainerFlow.Proofs.Schedule.Order
import ContainerFlow.Run

namespace ContainerFlow

open Relation (TransGen)

namespace Run

variable {w : Workflow} {s : Container.Setup} {sys : System}

/-! ## One action -/

theorem action_of_image_error {a : Action} {fault : Fault} (h : Container.image a = .error fault)
    (w : Workflow) (s : Container.Setup) (dry : Bool) (id : Nat) (script : Script)
    (sys : System) :
    action w s dry id a script sys = (⟨[.actionStarted a.name], [], .stopped fault⟩, script) := by
  rw [action, h]

/-- An action with an image shows its command, which is what is started. -/
theorem action_of_image_ok {a : Action} {image : String} (h : Container.image a = .ok image)
    (hstart : sys.startError? (Container.wordsFor w a s image) = none) (id : Nat)
    (script : Script) :
    action w s false id a script sys =
      (⟨[.actionStarted a.name, .image image, .command (Container.wordsFor w a s image)],
        [⟨id, Container.wordsFor w a s image, script.next.1⟩],
        endOf s.binary script.next.1⟩, script.next.2) := by
  rw [action, h]
  simp only [hstart]
  rfl

/-- A command that the system refuses is shown, and nothing else is done. -/
theorem action_of_refused {a : Action} {image text : String} (h : Container.image a = .ok image)
    (hstart : sys.startError? (Container.wordsFor w a s image) = some text) (id : Nat)
    (script : Script) :
    action w s false id a script sys =
      (⟨[.actionStarted a.name, .image image, .command (Container.wordsFor w a s image)], [],
        .stopped (.defect (.lost (.said text)))⟩, script) := by
  rw [action, h]
  simp only [hstart]
  rfl

/-- Told not to start anything, an action with an image shows its command. -/
theorem action_dry_of_image_ok {a : Action} {image : String} (h : Container.image a = .ok image)
    (w : Workflow) (s : Container.Setup) (id : Nat) (script : Script) (sys : System) :
    action w s true id a script sys =
      (⟨[.actionStarted a.name, .image image, .command (Container.wordsFor w a s image)], [],
        .exited 0⟩, script) := by
  rw [action, h]
  rfl

theorem starts_action_dry (w : Workflow) (s : Container.Setup) (id : Nat) (a : Action)
    (script : Script) (sys : System) : (action w s true id a script sys).1.starts = [] := by
  cases himage : Container.image a with
  | error fault => rw [action_of_image_error himage]
  | ok image => rw [action_dry_of_image_ok himage]

theorem endOf_eq_exited_iff {binary : String} {ending : ProcessEnd} {code : Int} :
    endOf binary ending = .exited code ↔ ending = .exited code := by
  cases ending <;> simp [endOf]

/-! ## One action after another -/

theorem actions_of_error {id : Nat} {fault : Fault} (h : w.action id = .error fault)
    (s : Container.Setup) (dry : Bool) (sys : System) (rest : List Nat) (script : Script) :
    actions w s dry sys (id :: rest) script = ⟨[], [], .stopped fault⟩ := by
  rw [actions, h]

/-- After an action that succeeds, the others run. -/
theorem actions_of_exited_zero {dry : Bool} {id : Nat} {a : Action} {script : Script}
    (ha : w.action id = .ok a) (hend : (action w s dry id a script sys).1.ending = .exited 0)
    (rest : List Nat) :
    actions w s dry sys (id :: rest) script =
      append (action w s dry id a script sys).1
        (actions w s dry sys rest (action w s dry id a script sys).2) := by
  rw [actions, ha]
  simp only [hend, if_pos]

/-- An action that does not succeed is the last one. -/
theorem starts_actions_of_ne_zero {dry : Bool} {id : Nat} {a : Action} {script : Script}
    (ha : w.action id = .ok a) (hend : (action w s dry id a script sys).1.ending ≠ .exited 0)
    (rest : List Nat) :
    (actions w s dry sys (id :: rest) script).starts =
      (action w s dry id a script sys).1.starts := by
  rw [actions, ha]
  dsimp only
  split
  · next hcode =>
    rw [if_neg (fun hzero => hend (by rw [hcode, hzero]))]
    rfl
  all_goals rfl

/-- What the first of the actions starts: nothing, or its container, which has to succeed for the
others to start theirs. -/
theorem starts_cons_cases (w : Workflow) (s : Container.Setup) (sys : System) (id : Nat)
    (rest : List Nat) (script : Script) :
    (actions w s false sys (id :: rest) script).starts = [] ∨
    ∃ a words, w.action id = .ok a ∧ Container.command w a s = .ok words ∧
      (actions w s false sys (id :: rest) script).starts =
        ⟨id, words, script.next.1⟩ ::
          if script.next.1 = .exited 0 then (actions w s false sys rest script.next.2).starts
          else [] := by
  cases ha : w.action id with
  | error fault => exact .inl (by rw [actions_of_error ha])
  | ok a =>
    cases himage : Container.image a with
    | error fault =>
      have haction := action_of_image_error himage w s false id script sys
      refine .inl ?_
      rw [starts_actions_of_ne_zero ha (by simp [haction]), haction]
    | ok image =>
      have hwords : Container.command w a s = .ok (Container.wordsFor w a s image) := by
        rw [Container.command, himage]
        rfl
      cases hstart : sys.startError? (Container.wordsFor w a s image) with
      | some text =>
        have haction := action_of_refused himage hstart id script
        refine .inl ?_
        rw [starts_actions_of_ne_zero ha (by simp [haction]), haction]
      | none =>
        have haction := action_of_image_ok himage hstart id script
        refine .inr ⟨a, Container.wordsFor w a s image, rfl, hwords, ?_⟩
        by_cases hzero : script.next.1 = .exited 0
        · rw [actions_of_exited_zero ha (by simp [haction, hzero, endOf]), haction, if_pos hzero]
          rfl
        · rw [starts_actions_of_ne_zero ha (by simpa [haction, endOf_eq_exited_iff] using hzero),
            haction, if_neg hzero]

/-! ## Whole runs -/

/-- Containers that a run of the actions `ids` may start: of the first of them, one each and in
turn, by the command of the action, and no other after one that does not succeed. -/
inductive Started (w : Workflow) (s : Container.Setup) : List Nat → List ContainerStart → Prop where
  | stop (ids : List Nat) : Started w s ids []
  | start {id : Nat} {rest : List Nat} {a : Action} {words : List String} {ending : ProcessEnd}
      {later : List ContainerStart} (ha : w.action id = .ok a)
      (hwords : Container.command w a s = .ok words) (hend : later ≠ [] → ending = .exited 0)
      (hlater : Started w s rest later) : Started w s (id :: rest) (⟨id, words, ending⟩ :: later)

theorem starts_actions_dry (w : Workflow) (s : Container.Setup) (sys : System) (ids : List Nat)
    (script : Script) : (actions w s true sys ids script).starts = [] := by
  induction ids generalizing script with
  | nil => rfl
  | cons id rest ih =>
    cases ha : w.action id with
    | error fault => rw [actions_of_error ha]
    | ok a =>
      have hnone := starts_action_dry w s id a script sys
      by_cases hzero : (action w s true id a script sys).1.ending = .exited 0
      · rw [actions_of_exited_zero ha hzero, append, hnone, ih, List.nil_append]
      · rw [starts_actions_of_ne_zero ha hzero, hnone]

/-- What a run starts, whatever becomes of the processes. -/
theorem started_actions (w : Workflow) (s : Container.Setup) (dry : Bool) (sys : System)
    (ids : List Nat) (script : Script) :
    Started w s ids (actions w s dry sys ids script).starts := by
  cases dry with
  | true =>
    rw [starts_actions_dry]
    exact .stop ids
  | false =>
    induction ids generalizing script with
    | nil => exact .stop []
    | cons id rest ih =>
      rcases starts_cons_cases w s sys id rest script with hnone | ⟨a, words, ha, hwords, hstarts⟩
      · rw [hnone]
        exact .stop _
      · rw [hstarts]
        split
        · next hzero => exact .start ha hwords (fun _ => hzero) (ih _)
        · exact .start ha hwords (fun hne => absurd rfl hne) (.stop rest)

namespace Started

/-- The actions whose containers start are the first ones, in order. -/
theorem map_action_prefix {ids : List Nat} {starts : List ContainerStart}
    (h : Started w s ids starts) : starts.map (·.action) <+: ids := by
  induction h with
  | stop ids => exact List.nil_prefix
  | start _ _ _ _ ih => exact List.cons_prefix_cons.mpr ⟨rfl, ih⟩

/-- Before a container starts, all earlier ones have succeeded. -/
theorem exited_of_mem_before {ids : List Nat} {before after : List ContainerStart}
    {start : ContainerStart} (h : Started w s ids (before ++ start :: after)) :
    ∀ earlier ∈ before, earlier.ending = .exited 0 := by
  induction before generalizing ids with
  | nil => exact fun _ h => (nomatch h)
  | cons first before ih =>
    cases h with
    | start _ _ hend hlater =>
      exact List.forall_mem_cons.mpr ⟨hend (by simp), ih hlater⟩

/-- Each container is that of its action. -/
theorem command_of_mem {ids : List Nat} {starts : List ContainerStart}
    (h : Started w s ids starts) : ∀ start ∈ starts,
      ∃ a, w.action start.action = .ok a ∧ Container.command w a s = .ok start.words := by
  induction h with
  | stop ids => exact fun _ h => (nomatch h)
  | start ha hwords _ _ ih => exact List.forall_mem_cons.mpr ⟨⟨_, ha, hwords⟩, ih⟩

end Started

end Run

/-! ## Needs come first -/

namespace Workflow

variable {w : Workflow}

/-- Whenever the container of an action starts, it does so for the first time, and all that the
action needs, be it through others, has been run once and has succeeded. -/
def NeedsFirst (w : Workflow) (starts : List ContainerStart) : Prop :=
  ∀ before start after, starts = before ++ start :: after →
    start.action ∉ before.map (·.action) ∧
    ∀ need, TransGen w.Needs start.action need →
      (before.map (·.action)).count need = 1 ∧
      ∃ earlier ∈ before, earlier.action = need ∧ earlier.ending = .exited 0

theorem needsFirst_nil (w : Workflow) : w.NeedsFirst [] := by
  intro before start after h
  simp at h

/-- A run in the order of the scheduler has the needs of every action behind it. -/
theorem needsFirst_of_started {s : Container.Setup} {ids : List Nat} {starts : List ContainerStart}
    (hids : w.IsOrder ids) (h : Run.Started w s ids starts) : w.NeedsFirst starts := by
  rintro before start after rfl
  obtain ⟨rest, hrest⟩ := h.map_action_prefix
  have hsplit : ids = before.map (·.action) ++ start.action :: (after.map (·.action) ++ rest) := by
    simpa using hrest.symm
  -- In this order, all that the action needs stands among the actions of `before`.
  rw [hsplit] at hids
  have hnodup := hids.distinct
  refine ⟨fun hmem => (List.disjoint_of_nodup_append hnodup) hmem (by simp), fun need hneed => ?_⟩
  have hmem := hids.mem_of_transGen hneed
  refine ⟨List.count_eq_one_of_mem hnodup.of_append_left hmem, ?_⟩
  obtain ⟨earlier, hearlier, rfl⟩ := List.mem_map.mp hmem
  exact ⟨earlier, hearlier, rfl, h.exited_of_mem_before earlier hearlier⟩

end Workflow

end ContainerFlow
