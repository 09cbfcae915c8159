/-
ContainerFlow.Proofs.Run.Stop — where a run stops, and how it ends.

Two things stop a run before its actions are all done: an action whose
container cannot start, for its image cannot be run or the system refuses
its command, and a process that does not succeed, right after it.  The
first of them in the order of the actions decides how many containers
start (`Run.StopsAfter`, which holds of one number only) and how the run
ends (`Run.Ends`).

A run takes one step an action, and there are five of them (`Run.Ran`).
Every run is made of these (`ran_actions`), so that what is to be said of
runs is proved step by step.
-/
import ContainerFlow.Proofs.Run

namespace ContainerFlow

/-! ## Scripts -/

/-- What the process does that is started after so many others. -/
def Script.ending (script : Script) (i : Nat) : ProcessEnd := script.getD i (.exited 0)

theorem Script.next_eq (script : Script) : script.next = (script.ending 0, script.tail) := by
  cases script <;> rfl

theorem Script.ending_tail (script : Script) (i : Nat) :
    Script.ending script.tail i = script.ending (i + 1) := by
  cases script <;> simp [ending]

/-! ## The first fault -/

/-- The action is there, and its image is one that can be run. -/
def Workflow.Runnable (w : Workflow) (id : Nat) : Prop :=
  ∃ a, w.actions[id]? = some a ∧ "docker://".toList <+: a.uses.toList

/-- The container of an action can start: its image can be run, and the system takes the words of
its command. -/
structure Workflow.Startable (w : Workflow) (s : Container.Setup) (sys : System) (id : Nat) :
    Prop where
  runnable : w.Runnable id
  taken : ∀ a words, w.actions[id]? = some a → Container.command w a s = .ok words →
    sys.startError? words = none

namespace Run

/-- The first fault stops a run of these actions when so many containers have started: they can all
start, and all their processes but the last succeed.  Then either there is no other action, or the
container of the next one cannot start, or the last process did not succeed. -/
structure StopsAfter (w : Workflow) (s : Container.Setup) (sys : System) (ids : List Nat)
    (script : Script) (count : Nat) : Prop where
  le : count ≤ ids.length
  startable : ∀ id ∈ ids.take count, w.Startable s sys id
  succeeded : ∀ i, i + 1 < count → script.ending i = .exited 0
  stops : count = ids.length ∨ (∃ id, ids[count]? = some id ∧ ¬ w.Startable s sys id) ∨
    ∃ i, count = i + 1 ∧ script.ending i ≠ .exited 0

variable {w : Workflow} {s : Container.Setup} {sys : System} {id : Nat} {ids rest : List Nat}
  {script : Script}

namespace StopsAfter

variable {count other : Nat}

theorem not_lt (h : StopsAfter w s sys ids script count)
    (h' : StopsAfter w s sys ids script other) : ¬ count < other := by
  intro hlt
  have hle := h'.le
  rcases h.stops with hall | ⟨id, hid, hnot⟩ | ⟨i, rfl, hfailed⟩
  · omega
  · -- The other run starts the container that cannot start.
    have hmem : id ∈ ids.take other :=
      List.mem_of_getElem? (by rwa [List.getElem?_take_of_lt hlt])
    exact hnot (h'.startable id hmem)
  · exact hfailed (h'.succeeded i hlt)

/-- A run stops in one place. -/
theorem unique (h : StopsAfter w s sys ids script count)
    (h' : StopsAfter w s sys ids script other) : count = other := by
  have := h.not_lt h'
  have := h'.not_lt h
  omega

theorem nil (w : Workflow) (s : Container.Setup) (sys : System) (script : Script) :
    StopsAfter w s sys [] script 0 where
  le := Nat.le_refl 0
  startable := by simp
  succeeded := by simp
  stops := .inl rfl

theorem blocked (hnot : ¬ w.Startable s sys id) :
    StopsAfter w s sys (id :: rest) script 0 where
  le := Nat.zero_le _
  startable := by simp
  succeeded := by simp
  stops := .inr (.inl ⟨id, rfl, hnot⟩)

theorem failed (hid : w.Startable s sys id) (hend : script.ending 0 ≠ .exited 0) :
    StopsAfter w s sys (id :: rest) script 1 where
  le := by simp
  startable := by simpa using hid
  succeeded := by simp
  stops := .inr (.inr ⟨0, rfl, hend⟩)

/-- After a process that succeeds, the run stops where the run of the other actions does. -/
theorem next (hid : w.Startable s sys id) (hend : script.ending 0 = .exited 0)
    (h : StopsAfter w s sys rest script.tail count) :
    StopsAfter w s sys (id :: rest) script (count + 1) where
  le := Nat.succ_le_succ h.le
  startable := by
    rw [List.take_succ_cons]
    exact List.forall_mem_cons.mpr ⟨hid, h.startable⟩
  succeeded i hi := by
    cases i with
    | zero => exact hend
    | succ i =>
      rw [← Script.ending_tail]
      exact h.succeeded i (by omega)
  stops := by
    rcases h.stops with hall | ⟨other, hother, hnot⟩ | ⟨i, rfl, hfailed⟩
    · exact .inl (by rw [hall, List.length_cons])
    · exact .inr (.inl ⟨other, by rwa [List.getElem?_cons_succ], hnot⟩)
    · rw [Script.ending_tail] at hfailed
      exact .inr (.inr ⟨i + 1, rfl, hfailed⟩)

end StopsAfter

/-- How a run of these actions ends when so many containers have started: as its last process does
if that does not succeed, and otherwise with success, or for what keeps the container of the next
action from starting. -/
structure Ends (w : Workflow) (s : Container.Setup) (sys : System) (ids : List Nat)
    (script : Script) (count : Nat) (e : RunEnd) : Prop where
  failed : ∀ i, count = i + 1 → script.ending i ≠ .exited 0 → e = endOf s.binary (script.ending i)
  finished : count = ids.length → (∀ i < count, script.ending i = .exited 0) → e = .exited 0
  /-- The image of the next action cannot be run. -/
  unsupported : ∀ id, ids[count]? = some id → ¬ w.Runnable id →
    (∀ i < count, script.ending i = .exited 0) →
    ∃ name uses, e = .stopped (.ofCause (.unsupportedImage name uses))
  /-- The command of the next action is refused. -/
  refused : ∀ id, ids[count]? = some id → w.Runnable id →
    (∀ i < count, script.ending i = .exited 0) → ∃ text, e = .stopped (.defect (.lost (.said text)))

/-! ## Steps of a run -/

/-- The containers that a run of these actions starts, and its end. -/
inductive Ran (w : Workflow) (s : Container.Setup) (sys : System) :
    List Nat → Script → List ContainerStart → RunEnd → Prop where
  | finished (script : Script) : Ran w s sys [] script [] (.exited 0)
  | unsupported {id : Nat} {rest : List Nat} {script : Script} {name uses : String}
      (hid : ¬ w.Runnable id) :
      Ran w s sys (id :: rest) script [] (.stopped (.ofCause (.unsupportedImage name uses)))
  | refused {id : Nat} {rest : List Nat} {script : Script} {text : String}
      (hid : w.Runnable id) (hnot : ¬ w.Startable s sys id) :
      Ran w s sys (id :: rest) script [] (.stopped (.defect (.lost (.said text))))
  | failed {id : Nat} {rest : List Nat} {script : Script} {words : List String}
      (hid : w.Startable s sys id) (hend : script.ending 0 ≠ .exited 0) :
      Ran w s sys (id :: rest) script [⟨id, words, script.ending 0⟩]
        (endOf s.binary (script.ending 0))
  | next {id : Nat} {rest : List Nat} {script : Script} {words : List String}
      {later : List ContainerStart} {e : RunEnd} (hid : w.Startable s sys id)
      (hend : script.ending 0 = .exited 0) (hlater : Ran w s sys rest script.tail later e) :
      Ran w s sys (id :: rest) script (⟨id, words, script.ending 0⟩ :: later) e

/-- Whether an action has an image says whether it can be run. -/
theorem runnable_iff {a : Action} (ha : w.actions[id]? = some a) :
    w.Runnable id ↔ ∃ image, Container.image a = .ok image := by
  have hscheme_iff : (∃ image, Container.image a = .ok image) ↔
      "docker://".toList <+: a.uses.toList := by
    rw [← List.isPrefixOf_iff_prefix]
    unfold Container.image Container.imageScheme
    split <;> simp_all
  rw [hscheme_iff]
  constructor
  · rintro ⟨b, hb, hscheme⟩
    obtain rfl : a = b := Option.some.inj (ha.symm.trans hb)
    exact hscheme
  · exact fun hscheme => ⟨a, ha, hscheme⟩

/-- What the system says to the words of a command decides whether its container can start. -/
theorem startable_iff {a : Action} {image : String} (ha : w.actions[id]? = some a)
    (himage : Container.image a = .ok image) :
    w.Startable s sys id ↔ sys.startError? (Container.wordsFor w a s image) = none := by
  have hwords : Container.command w a s = .ok (Container.wordsFor w a s image) := by
    rw [Container.command, himage]
    rfl
  constructor
  · exact fun h => h.taken a _ ha hwords
  · intro htaken
    refine ⟨(runnable_iff ha).mpr ⟨image, himage⟩, fun b words hb hcommand => ?_⟩
    obtain rfl : a = b := Option.some.inj (ha.symm.trans hb)
    rwa [← Except.ok.inj (hwords.symm.trans hcommand)]

/-- An action that does not succeed ends the run. -/
theorem ending_actions_of_ne_zero {dry : Bool} {a : Action} (ha : w.action id = .ok a)
    (hend : (action w s dry id a script sys).1.ending ≠ .exited 0) (rest : List Nat) :
    (actions w s dry sys (id :: rest) script).ending =
      (action w s dry id a script sys).1.ending := by
  rw [actions, ha]
  dsimp only
  split
  · next hcode =>
    rw [if_neg (fun hzero => hend (by rw [hcode, hzero])), hcode]
    exact hcode
  all_goals rfl

/-- One step: what the first of the actions does, and the run of the others if it succeeds. -/
theorem ran_cons (hid : id < w.size)
    (hrest : Ran w s sys rest script.tail (actions w s false sys rest script.tail).starts
      (actions w s false sys rest script.tail).ending) :
    Ran w s sys (id :: rest) script (actions w s false sys (id :: rest) script).starts
      (actions w s false sys (id :: rest) script).ending := by
  obtain ⟨a, ha⟩ : ∃ a, w.actions[id]? = some a := ⟨_, List.getElem?_eq_getElem hid⟩
  have haction : w.action id = .ok a := by rw [Workflow.action, ha]
  cases himage : Container.image a with
  | error fault =>
    have hstep := action_of_image_error himage w s false id script sys
    have hne : (action w s false id a script sys).1.ending ≠ .exited 0 := by simp [hstep]
    have hfault : fault = .ofCause (.unsupportedImage a.name a.uses) := by
      unfold Container.image at himage
      split at himage
      · cases himage
      · cases himage
        rfl
    rw [starts_actions_of_ne_zero haction hne, ending_actions_of_ne_zero haction hne, hstep, hfault]
    refine .unsupported fun hrunnable => ?_
    obtain ⟨image, hok⟩ := (runnable_iff ha).mp hrunnable
    rw [himage] at hok
    cases hok
  | ok image =>
    have hrunnable : w.Runnable id := (runnable_iff ha).mpr ⟨image, himage⟩
    cases htaken : sys.startError? (Container.wordsFor w a s image) with
    | some text =>
      have hstep := action_of_refused himage htaken id script
      have hne : (action w s false id a script sys).1.ending ≠ .exited 0 := by simp [hstep]
      have hnot : ¬ w.Startable s sys id := by simp [startable_iff ha himage, htaken]
      rw [starts_actions_of_ne_zero haction hne, ending_actions_of_ne_zero haction hne, hstep]
      exact .refused hrunnable hnot
    | none =>
      have hstartable : w.Startable s sys id := (startable_iff ha himage).mpr htaken
      have hstep := action_of_image_ok himage htaken id script
      rw [Script.next_eq] at hstep
      by_cases hzero : script.ending 0 = .exited 0
      · rw [actions_of_exited_zero haction (by simp [hstep, hzero, endOf]), hstep]
        exact .next hstartable hzero hrest
      · have hne : (action w s false id a script sys).1.ending ≠ .exited 0 := by
          simpa [hstep, endOf_eq_exited_iff] using hzero
        rw [starts_actions_of_ne_zero haction hne, ending_actions_of_ne_zero haction hne, hstep]
        exact .failed hstartable hzero

/-- Every run of actions that are there is made of these steps. -/
theorem ran_actions (s : Container.Setup) (sys : System) (hids : ∀ id ∈ ids, id < w.size)
    (script : Script) :
    Ran w s sys ids script (actions w s false sys ids script).starts
      (actions w s false sys ids script).ending := by
  induction ids generalizing script with
  | nil => exact .finished script
  | cons id rest ih =>
    obtain ⟨hid, hrest⟩ := List.forall_mem_cons.mp hids
    exact ran_cons hid (ih hrest _)

/-! ## Whole runs -/

namespace Ran

variable {starts : List ContainerStart} {e : RunEnd}

theorem stopsAfter (h : Ran w s sys ids script starts e) :
    StopsAfter w s sys ids script starts.length := by
  induction h with
  | finished script => exact .nil w s sys script
  | unsupported hid => exact .blocked fun hstartable => hid hstartable.runnable
  | refused _ hnot => exact .blocked hnot
  | failed hid hend => exact .failed hid hend
  | next hid hend _ ih => exact .next hid hend ih

/-- The processes do what the script says, in turn. -/
theorem map_ending (h : Ran w s sys ids script starts e) :
    starts.map (·.ending) = (List.range starts.length).map script.ending := by
  induction h with
  | finished => rfl
  | unsupported => rfl
  | refused => rfl
  | failed => rfl
  | @next id rest script words later e hid hend hlater ih =>
    rw [List.map_cons, ih, List.length_cons, List.range_succ_eq_map, List.map_cons, List.map_map]
    simp [Script.ending_tail, Function.comp_def]

theorem ends (h : Ran w s sys ids script starts e) :
    Ends w s sys ids script starts.length e := by
  induction h with
  | finished script =>
    constructor
    case failed => exact fun i hi => absurd hi (by simp)
    case finished => exact fun _ _ => rfl
    case unsupported => exact fun id hid => absurd hid (by simp)
    case refused => exact fun id hid => absurd hid (by simp)
  | unsupported hnot =>
    constructor
    case failed => exact fun i hi => absurd hi (by simp)
    case finished => exact fun hlength => absurd hlength (by simp)
    case unsupported => exact fun _ _ _ _ => ⟨_, _, rfl⟩
    case refused =>
      intro id hid hrunnable
      cases hid
      exact absurd hrunnable hnot
  | refused hrunnable =>
    constructor
    case failed => exact fun i hi => absurd hi (by simp)
    case finished => exact fun hlength => absurd hlength (by simp)
    case unsupported =>
      intro id hid hnot
      cases hid
      exact absurd hrunnable hnot
    case refused => exact fun _ _ _ _ => ⟨_, rfl⟩
  | failed _ hend =>
    constructor
    case failed =>
      intro i hi _
      obtain rfl : i = 0 := by simpa using hi.symm
      rfl
    case finished => exact fun _ hall => absurd (hall 0 (by simp)) hend
    case unsupported => exact fun _ _ _ hall => absurd (hall 0 (by simp)) hend
    case refused => exact fun _ _ _ hall => absurd (hall 0 (by simp)) hend
  | @next id rest script words later e hid hend hlater ih =>
    -- The places of the later processes are counted from one further on.
    have hall (h : ∀ i < later.length + 1, script.ending i = .exited 0) :
        ∀ i < later.length, Script.ending script.tail i = .exited 0 := fun i hi => by
      rw [Script.ending_tail]
      exact h (i + 1) (by omega)
    constructor
    case failed =>
      intro i hi hfailed
      cases i with
      | zero => exact absurd hend hfailed
      | succ i =>
        rw [← Script.ending_tail] at hfailed ⊢
        exact ih.failed i (by simpa using hi) hfailed
    case finished => exact fun hlength h => ih.finished (by simpa using hlength) (hall h)
    case unsupported =>
      exact fun next hnext hnot h => ih.unsupported next (by simpa using hnext) hnot (hall h)
    case refused =>
      exact fun next hnext hrun h => ih.refused next (by simpa using hnext) hrun (hall h)

end Ran

end Run

end ContainerFlow
