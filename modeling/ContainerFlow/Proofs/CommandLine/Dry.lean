/-
ContainerFlow.Proofs.CommandLine.Dry — a plan, a dry run and a real run
of one workflow agree.

The three come to the same workflow and the same order of its actions.
The plan lists their names in this order; the dry run shows their
commands, up to the first whose image cannot be run; the real run starts
the first of these commands (`Proofs.Run.Dry`).  As for every run, that
takes for granted that the actions come to run at all
(`Host.IsReady`).  When they do not, neither run shows a command.

The main statement is `plan_and_runs_agree`.
-/
import Mathlib
import ContainerFlow.Proofs.CommandLine.Exit
import ContainerFlow.Proofs.Faults
import ContainerFlow.Proofs.Run.Dry

namespace ContainerFlow

/-- The names of a message that lists a plan. -/
def Message.listed? : Message → Option (List String)
  | .plan _ names => some names
  | _ => none

/-- The actions of a plan are those of its order. -/
theorem Plan.map_name_of_entriesOf {w : Workflow} {ids : List Nat} {entries : List Plan.Entry}
    (h : Plan.entriesOf w ids = .ok entries) :
    ∃ acts, List.Forall₂ (fun id a => w.action id = .ok a) ids acts ∧
      entries.map (·.name) = acts.map (·.name) := by
  induction ids generalizing entries with
  | nil =>
    cases h
    exact ⟨[], .nil, rfl⟩
  | cons id rest ih =>
    obtain ⟨entry, hentry, h⟩ := bind_eq_ok_iff.mp h
    obtain ⟨later, hlater, h⟩ := bind_eq_ok_iff.mp h
    cases h
    obtain ⟨a, ha, hentry⟩ := bind_eq_ok_iff.mp hentry
    obtain ⟨needs, -, hentry⟩ := bind_eq_ok_iff.mp hentry
    cases hentry
    obtain ⟨acts, hacts, hnames⟩ := ih hlater
    exact ⟨a :: acts, .cons ha hacts, congrArg (a.name :: ·) hnames⟩

namespace CommandLine

/-- The commands that an outcome shows, in order. -/
def Outcome.commands (o : Outcome) : List (List String) := shownCommands o.messages

/-- The plans that an outcome lists, by the names of their actions. -/
def Outcome.listed (o : Outcome) : List (List String) := o.messages.filterMap Message.listed?

/-- The first request asks for a dry run of what the second is to run. -/
structure Request.Rehearses (d r : Request) : Prop where
  command : d.command = .run
  dry : d.dry = true
  path : d.path = r.path
  workflowFile : d.workflowFile = r.workflowFile
  docker : d.docker = r.docker

/-- The first request asks for a list of what the second is to run. -/
structure Request.Previews (p r : Request) : Prop where
  command : p.command = .plan
  json : p.json = false
  path : p.path = r.path
  workflowFile : p.workflowFile = r.workflowFile

variable {host : Host} {r d p : Request} {w : Workflow} {ids : List Nat} {commit : String}

/-! ## Messages without commands -/

theorem shownCommands_violations (violations : List Policy.Violation) :
    shownCommands (violations.map fun v => .violation v.line) = [] := by
  simp [shownCommands, Message.command?]

theorem shownCommands_failure (f : Failure) : shownCommands (failureMessages f) = [] := by
  unfold failureMessages
  split <;> rfl

theorem shownCommands_endOfRun (e : RunEnd) : shownCommands (endOfRun e).1 = [] := by
  cases e with
  | exited code => rfl
  | stopped fault =>
    cases fault with
    | failure f => exact shownCommands_failure f
    | defect d => rfl
  | interrupted => rfl

/-! ## From a request to what it shows -/

/-- What a run shows of commands is what its actions show, once the scratch directories are
made. -/
theorem commands_runIn (host : Host) (r : Request) (w : Workflow) (ids : List Nat)
    (commit : String) (shown : List Message) :
    (runIn host r w ids commit shown).commands = shownCommands shown ++
      match host.scratchDefect? r with
      | none => shownCommands (host.trace r w commit ids).messages
      | some _ => [] := by
  rw [runIn, Host.scratchDefect?, ← Host.prepared]
  generalize host.prepared r = prepared
  obtain ⟨tree, _ | defect⟩ := prepared
  · have hremark (text : String) (rest : List Message) :
        shownCommands (.debug text :: rest) = shownCommands rest := rfl
    simp [Outcome.commands, Host.trace, Host.setup, shownCommands_endOfRun, hremark]
  · simp [Outcome.commands]

/-- A request to run shows the commands that its actions show, and none when these do not come to
run. -/
theorem commands_answer_of_run (hrun : r.command = .run)
    (hload : (host.loaded r).result = .ok w)
    (hids : w.order = .ok ids) (hcommit : Revision.head host.revision = .ok commit) :
    (host.IsReady r →
      (answer host r).commands = shownCommands (host.trace r w commit ids).messages) ∧
    (¬ host.IsReady r → (answer host r).commands = []) := by
  by_cases hpath : hasDirectory host r.path
  · have hanswer : (answer host r).commands =
        match host.scratchDefect? r with
        | none => shownCommands (host.trace r w commit ids).messages
        | some _ => [] := by
      have hcommands := commands_runIn host r w ids commit
        [.runStarted w.name r.workflowPath.render w.size r.dry, .debug s!"GITHUB_SHA={commit}"]
      rw [answer, if_neg (not_refused_of_path fun _ => hpath)]
      simp only [prepare, hload, hids, perform, hrun, run, hcommit]
      rw [Outcome.commands, shownCommands_append, shownCommands_violations, List.nil_append]
      exact hcommands
    constructor
    · rintro ⟨-, hscratch⟩
      rw [hanswer, hscratch]
    · intro hready
      obtain ⟨defect, hdefect⟩ :=
        Option.ne_none_iff_exists'.mp fun hnone => hready ⟨hpath, hnone⟩
      rw [hanswer, hdefect]
  · rw [answer, if_pos ⟨hrun, by simpa using hpath⟩]
    exact ⟨fun hready => absurd hready.1 hpath, fun _ => rfl⟩

/-- A request for a plan lists the actions in their order. -/
theorem listed_answer_of_plan (hplan : p.command = .plan) (hjson : p.json = false)
    (hload : (host.loaded p).result = .ok w)
    (hids : w.order = .ok ids) :
    ∃ acts, List.Forall₂ (fun id a => w.action id = .ok a) ids acts ∧
      (answer host p).listed = [acts.map (·.name)] := by
  have hin := WorkflowFile.inRange_of_load hload
  have horder := Workflow.isOrder_of_order hin.2 hids
  obtain ⟨plan, hofOrder⟩ := Plan.exists_ofOrder hin fun id hid => (horder.complete id).mp hid
  obtain ⟨entries, hentries, hrest⟩ := bind_eq_ok_iff.mp hofOrder
  obtain ⟨resolves, -, hplanned⟩ := bind_eq_ok_iff.mp hrest
  obtain ⟨acts, hacts, hnames⟩ := Plan.map_name_of_entriesOf hentries
  have hshown : showPlan w ids p.json = .ok [.plan w.name (acts.map (·.name))] := by
    rw [← hnames, hjson]
    refine bind_eq_ok_iff.mpr ⟨plan, hofOrder, ?_⟩
    cases hplanned
    rfl
  refine ⟨acts, hacts, ?_⟩
  have hviolations (violations : List Policy.Violation) :
      (violations.map fun v => Message.violation v.line).filterMap Message.listed? = [] := by
    simp [Message.listed?]
  rw [answer, if_neg (by simp [hplan])]
  simp only [prepare, hload, hids, perform, hplan, hshown]
  rw [Outcome.listed, List.filterMap_append, hviolations]
  rfl

theorem eq_exited_zero_of_status {e : RunEnd} (h : (endOfRun e).2.status = 0) :
    e = .exited 0 := by
  cases e with
  | exited code => exact congrArg RunEnd.exited h
  | stopped fault =>
    cases fault <;> simp [endOfRun, endOfFault, Exit.status, failureCode, defectCode] at h
  | interrupted => simp [endOfRun, Exit.status, interruptCode] at h

theorem loaded_eq (hpath : d.path = r.path) (hfile : d.workflowFile = r.workflowFile) :
    host.loaded d = host.loaded r := by
  rw [Host.loaded, Host.loaded, hpath, hfile]

theorem isReady_of_path (hpath : d.path = r.path) : host.IsReady d ↔ host.IsReady r := by
  simp only [Host.IsReady, Host.scratchDefect?, Host.prepared, Request.repository, hpath]

/-! ## Main result -/

/-- **A plan, a dry run and a real run agree**: the plan lists the actions in their order; the dry
run starts nothing and shows their commands in this order, up to the first whose image cannot be
run; what the real run starts are the first of these commands, and all of them if it succeeds.  When
the actions do not come to run, no command is shown and none is started. -/
theorem plan_and_runs_agree (host : Host) (env : Environment)
    (words dryWords planWords : List String)
    (hread : read env words = .request r) (hrun : r.command = .run) (hdry : r.dry = false)
    (hreadDry : read env dryWords = .request d) (hrehearses : d.Rehearses r)
    (hreadPlan : read env planWords = .request p) (hpreviews : p.Previews r)
    (hload : ((host.inEnvironment env).loaded r).result = .ok w)
    (hids : w.order = .ok ids) (hcommit : Revision.head host.revision = .ok commit) :
    let real := (execute host env words).1
    let dry := (execute host env dryWords).1
    let plan := (execute host env planWords).1
    dry.calls = [] ∧
    ∃ acts, List.Forall₂ (fun id a => w.action id = .ok a) ids acts ∧
      plan.listed = [acts.map (·.name)] ∧
      ((host.inEnvironment env).IsReady r →
        List.Forall₂ (fun a words => Container.command w a (host.setup r commit) = .ok words)
          (acts.takeWhile Action.isSupported) dry.commands ∧
        real.starts.map (·.words) <+: dry.commands ∧
        (real.exit.status = 0 → real.starts.map (·.words) = dry.commands)) ∧
      (¬ (host.inEnvironment env).IsReady r →
        dry.commands = [] ∧ real.starts = [] ∧ real.exit.status ≠ 0) := by
  intro real dry plan
  have hsetup : (host.inEnvironment env).setup d commit = host.setup r commit := by
    simp [Host.setup, Host.inEnvironment, hrehearses.docker]
  have hloadDry : ((host.inEnvironment env).loaded d).result = .ok w := by
    rwa [loaded_eq hrehearses.path hrehearses.workflowFile]
  have hloadPlan : ((host.inEnvironment env).loaded p).result = .ok w := by
    rwa [loaded_eq hpreviews.path hpreviews.workflowFile]
  have hdryAnswer : dry = answer (host.inEnvironment env) d := answer_of_read hreadDry host
  have hrealAnswer : real = answer (host.inEnvironment env) r := answer_of_read hread host
  have hplanAnswer : plan = answer (host.inEnvironment env) p := answer_of_read hreadPlan host
  have hready : (host.inEnvironment env).IsReady d ↔ (host.inEnvironment env).IsReady r :=
    isReady_of_path hrehearses.path
  obtain ⟨hcommands, hnone⟩ := commands_answer_of_run hrehearses.command hloadDry hids hcommit
  rw [Host.trace, hsetup, hrehearses.dry] at hcommands
  obtain ⟨acts, hacts, hlisted⟩ := listed_answer_of_plan hpreviews.command hpreviews.json
    hloadPlan hids
  refine ⟨?_, acts, hacts, hplanAnswer ▸ hlisted, fun h => ?_, fun h => ?_⟩
  · have hstarts : dry.starts = [] := by
      rw [hdryAnswer]
      rcases starts_answer (host.inEnvironment env) d with hquiet | ⟨w', ids', commit', -, -, -, hs⟩
      · exact hquiet
      · rw [hs, Host.trace, hrehearses.dry, Run.starts_actions_dry]
    exact List.map_eq_nil_iff.mp hstarts
  · have hstarts := starts_answer_of_ready hrun h.1 hload hids hcommit h.2
    have hexit := exit_answer_of_run hrun h.1 hload hids hcommit
    rw [h.2] at hexit
    rw [Host.trace, hdry] at hstarts hexit
    rw [hdryAnswer, hrealAnswer, hcommands (hready.mpr h), hstarts, hexit]
    obtain ⟨hfirst, hall⟩ := Run.starts_prefix_dry w (host.setup r commit) host.system ids
      host.script (host.inEnvironment env).script
    exact ⟨Run.commands_actions_dry hacts _ _ _, hfirst,
      fun hzero => hall (eq_exited_zero_of_status hzero)⟩
  · rw [hdryAnswer, hrealAnswer]
    obtain ⟨hstarts, hexit⟩ := answer_of_not_ready hrun hload hids hcommit h
    exact ⟨hnone (mt hready.mp h), hstarts, hexit⟩

/-! ## The small workflow -/

def dryWords : List String := ["run", "--dry", "--workflow-file", "ci"]

def dryRequest : Request := { runRequest with dry := true }

theorem read_dryWords : read [] dryWords = .request dryRequest := by cbv

theorem rehearses_dryRequest : dryRequest.Rehearses runRequest := ⟨rfl, rfl, rfl, rfl, rfl⟩

def planWords : List String := ["plan", "--workflow-file", "ci"]

def planRequest : Request := { runRequest with command := .plan }

theorem read_planWords : read [] planWords = .request planRequest := by cbv

theorem previews_planRequest : planRequest.Previews runRequest := ⟨rfl, rfl, rfl, rfl⟩

/-- The second of three actions fails, which the dry run does not know. -/
theorem plan_and_runs_agree_pipeline :
    let host := hostWith pipelineText.toUTF8 [.exited 0, .exited (-3)]
    let real := (execute host [] runWords).1
    let dry := (execute host [] dryWords).1
    let plan := (execute host [] planWords).1
    read [] runWords = .request runRequest ∧ read [] dryWords = .request dryRequest ∧
    dryRequest.Rehearses runRequest ∧ read [] planWords = .request planRequest ∧
    planRequest.Previews runRequest ∧
    ((host.inEnvironment []).loaded runRequest).result = .ok pipeline ∧
    pipeline.order = .ok [2, 1, 0] ∧ Revision.head host.revision = .ok "abc" ∧
    (host.inEnvironment []).IsReady runRequest ∧
    dry.calls = [] ∧ plan.listed = [["a", "b", "c"]] ∧ dry.commands.length = 3 ∧
    real.starts.map (·.words) <+: dry.commands := by
  intro host real dry plan
  have hready : (host.inEnvironment []).IsReady runRequest := isReady_hostWith _ _
  obtain ⟨hcalls, acts, hacts, hlisted, hruns, -⟩ :=
    plan_and_runs_agree host [] runWords dryWords planWords read_runWords rfl rfl read_dryWords
      rehearses_dryRequest read_planWords previews_planRequest (loaded_pipeline _ _)
      order_pipeline (head_hostAt _ _ _ _)
  have hpipeline : List.Forall₂ (fun id a => pipeline.action id = .ok a) [2, 1, 0]
      pipeline.actions.reverse := .cons rfl (.cons rfl (.cons rfl .nil))
  obtain rfl : acts = pipeline.actions.reverse := by
    refine List.forall₂_eq_eq_eq ▸ forall₂_join (fun id a b ha hb => ?_) hacts hpipeline
    exact Except.ok.inj (ha.symm.trans hb)
  obtain ⟨hcommands, hfirst, -⟩ := hruns hready
  exact ⟨read_runWords, read_dryWords, rehearses_dryRequest, read_planWords,
    previews_planRequest, loaded_pipeline _ _, order_pipeline, head_hostAt _ _ _ _, hready, hcalls,
    hlisted, hcommands.length_eq.symm, hfirst⟩

theorem loaded_deepHost {r : Request} (hpath : r.path = runRequest.path)
    (hfile : r.workflowFile = runRequest.workflowFile) :
    (deepHost.loaded r).result = .ok pipeline := by
  rw [loaded_eq hpath hfile]
  exact loaded_pipeline _ _

/-- No command is shown where the workflow file cannot be copied to. -/
theorem commands_dry_deepHost : (execute deepHost [] dryWords).1.commands = [] := by
  have hload := loaded_deepHost rehearses_dryRequest.path rehearses_dryRequest.workflowFile
  have hnot := mt (isReady_of_path rehearses_dryRequest.path).mp not_isReady_deepHost
  rw [answer_of_read read_dryWords]
  exact (commands_answer_of_run rfl hload order_pipeline (head_hostAt _ _ _ _)).2 hnot

/-- The plan lists all actions there. -/
theorem listed_plan_deepHost :
    ∃ names, (execute deepHost [] planWords).1.listed = [names] ∧ names.length = 3 := by
  have hload := loaded_deepHost previews_planRequest.path previews_planRequest.workflowFile
  obtain ⟨acts, hacts, hlisted⟩ :=
    listed_answer_of_plan previews_planRequest.command rfl hload order_pipeline
  rw [answer_of_read read_planWords]
  exact ⟨_, hlisted, by rw [List.length_map]; exact hacts.length_eq.symm⟩

/-- All actions can be run, and yet the dry run shows none of the commands: the copy of the
workflow file would have too long a path. -/
theorem dry_run_shows_nothing_deepPlace :
    let dry := (execute deepHost [] dryWords).1
    let plan := (execute deepHost [] planWords).1
    deepHost.view.tree.IsTree ∧ deepHost.scratch.IsFreshIn deepHost.view.tree ∧
    read [] dryWords = .request dryRequest ∧ read [] planWords = .request planRequest ∧
    hasDirectory deepHost dryRequest.path ∧
    (deepHost.loaded dryRequest).result = .ok pipeline ∧
    pipeline.order = .ok [2, 1, 0] ∧ Revision.head deepHost.revision = .ok "abc" ∧
    (∀ a ∈ pipeline.actions, a.isSupported) ∧
    (∃ names, plan.listed = [names] ∧ names.length = 3) ∧ dry.commands = [] := by
  intro dry plan
  exact ⟨isTree_deepHost, isFreshIn_deepHost, read_dryWords, read_planWords,
    hasDirectory_hostAt _ _ _ _, loaded_deepHost rfl rfl, order_pipeline, head_hostAt _ _ _ _,
    by decide, listed_plan_deepHost, commands_dry_deepHost⟩

end CommandLine

end ContainerFlow
