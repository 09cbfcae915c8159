/-
ContainerFlow.Proofs.CommandLine — the containers that a command line
starts.

Only a run starts containers, and only after the file has been compiled
and the actions have an order; then they are those of the run in that
order (`starts_answer`, and `starts_answer_of_ready` for when they are
started at all).  With what is known of orders and of runs, every
container starts after those of all the actions that its action needs
(`needs_before_start`).
-/
import Mathlib
import ContainerFlow.CommandLine.Outcome
import ContainerFlow.Proofs.Compile
import ContainerFlow.Proofs.Run

namespace ContainerFlow.CommandLine

/-- The containers that are started, in order. -/
def Outcome.starts (o : Outcome) : List ContainerStart := o.calls.map (·.start)

/-- What commands are made with, beside the action. -/
def Host.setup (host : Host) (r : Request) (commit : String) : Container.Setup :=
  ⟨commit, host.workspaceDir, host.homeDir, r.docker⟩

/-- The tree with the scratch directories of a request, and what keeps them from being made. -/
def Host.prepared (host : Host) (r : Request) : FileTree × Option Defect :=
  host.scratch.prepare host.view.tree host.view.here r.repository (Path.ofText host.workspaceDir)
    host.system

/-- What keeps the scratch directories of a request from being made. -/
def Host.scratchDefect? (host : Host) (r : Request) : Option Defect := (host.prepared r).2

/-- The run of the actions of a request, one after the other. -/
def Host.trace (host : Host) (r : Request) (w : Workflow) (commit : String) (ids : List Nat) :
    Trace :=
  Run.actions w (host.setup r commit) r.dry host.system ids host.script

variable {host : Host} {r : Request} {w : Workflow} {ids : List Nat} {commit : String}

/-! ## From a workflow with an order -/

@[simp] theorem starts_quiet (host : Host) (exitCode : Int) (messages : List Message) :
    (Outcome.quiet host exitCode messages).starts = [] := rfl

@[simp] theorem starts_stopped (host : Host) (shown : List Message) (fault : Fault) :
    (Outcome.stopped host shown fault).starts = [] := rfl

theorem starts_runIn (host : Host) (r : Request) (w : Workflow) (ids : List Nat) (commit : String)
    (shown : List Message) :
    (runIn host r w ids commit shown).starts =
      if host.scratchDefect? r = none then
        (host.trace r w commit ids).starts
      else [] := by
  rw [runIn, Host.scratchDefect?, ← Host.prepared]
  generalize host.prepared r = prepared
  obtain ⟨tree, _ | d⟩ := prepared
  · simp [Outcome.starts, Host.trace, Host.setup, Function.comp_def]
  · rfl

/-- A run that is not kept from it starts what its actions start in their order. -/
theorem starts_run_of_ready (hcommit : Revision.head host.revision = .ok commit)
    (hscratch : host.scratchDefect? r = none) (w : Workflow) (ids : List Nat) :
    (run host r w ids).starts = (host.trace r w commit ids).starts := by
  simp only [run, hcommit, starts_runIn, hscratch, if_pos]

theorem starts_run (host : Host) (r : Request) (w : Workflow) (ids : List Nat) :
    (run host r w ids).starts = [] ∨ ∃ commit, Revision.head host.revision = .ok commit ∧
      (run host r w ids).starts = (host.trace r w commit ids).starts := by
  cases hcommit : Revision.head host.revision with
  | error fault => simp [run, hcommit]
  | ok commit =>
    by_cases hscratch : host.scratchDefect? r = none
    · exact .inr ⟨commit, rfl, starts_run_of_ready hcommit hscratch w ids⟩
    · simp [run, hcommit, starts_runIn, hscratch]

theorem starts_perform (host : Host) (r : Request) (w : Workflow) (ids : List Nat) :
    (perform host r w ids).starts = if r.command = .run then (run host r w ids).starts else [] := by
  cases hcommand : r.command with
  | check => simp [perform, hcommand]
  | plan =>
    simp only [perform, hcommand]
    cases showPlan w ids r.json <;> rfl
  | run => simp [perform, hcommand]

/-! ## From a request -/

/-- A request is not refused for its path when that leads to a directory. -/
theorem not_refused_of_path (hpath : r.command = .run → hasDirectory host r.path) :
    ¬ (r.command = .run ∧ !hasDirectory host r.path) := by
  rintro ⟨hrun, hnone⟩
  simp [hpath hrun] at hnone

/-- A request does with a workflow what is to be done once its file is compiled and has an order. -/
theorem starts_answer_of_prepared (hpath : r.command = .run → hasDirectory host r.path)
    (hload : (host.loaded r).result = .ok w)
    (hids : w.order = .ok ids) : (answer host r).starts = (perform host r w ids).starts := by
  rw [answer, if_neg (not_refused_of_path hpath)]
  simp only [prepare, hload, hids]
  rfl

/-- When nothing keeps a request from running, what starts is what the actions start in their
order. -/
theorem starts_answer_of_ready (hrun : r.command = .run) (hpath : hasDirectory host r.path)
    (hload : (host.loaded r).result = .ok w)
    (hids : w.order = .ok ids) (hcommit : Revision.head host.revision = .ok commit)
    (hscratch : host.scratchDefect? r = none) :
    (answer host r).starts = (host.trace r w commit ids).starts := by
  rw [starts_answer_of_prepared (fun _ => hpath) hload hids, starts_perform, if_pos hrun,
    starts_run_of_ready hcommit hscratch]

/-- A request starts nothing, or its file is compiled and has an order, the commit is known, and it
starts what the actions start in this order. -/
theorem starts_answer (host : Host) (r : Request) :
    (answer host r).starts = [] ∨
      ∃ w ids commit, (host.loaded r).result = .ok w ∧
        w.order = .ok ids ∧ Revision.head host.revision = .ok commit ∧
        (answer host r).starts = (host.trace r w commit ids).starts := by
  by_cases hproper : r.command = .run ∧ !hasDirectory host r.path
  · rw [answer, if_pos hproper]
    exact .inl rfl
  cases hload : (host.loaded r).result with
  | error fault =>
    rw [answer, if_neg hproper]
    simp [prepare, hload]
  | ok w =>
    cases hids : w.order with
    | error fault =>
      rw [answer, if_neg hproper]
      simp [prepare, hload, hids]
    | ok ids =>
      have hpath : r.command = .run → hasDirectory host r.path := by
        simpa using hproper
      rw [starts_answer_of_prepared hpath hload hids, starts_perform]
      split
      · rcases starts_run host r w ids with hnone | ⟨commit, hcommit, hstarts⟩
        · exact .inl hnone
        · exact .inr ⟨w, ids, commit, rfl, hids, hcommit, hstarts⟩
      · exact .inl rfl

theorem answer_of_read {env : Environment} {words : List String} (h : read env words = .request r)
    (host : Host) : (execute host env words).1 = answer (host.inEnvironment env) r := by
  rw [execute, h]

/-! ## A request to run -/

/-- A repository that holds a workflow file, and the directory `top`. -/
def repositoryWith (content : ByteArray) (top : Location) : FileTree :=
  ⟨[(["r"], .directory), (["r", "ci"], .file content)] ++
    (List.range top.length).map fun n => (top.take (n + 1), .directory)⟩

/-- A host with a repository that holds a workflow file, and with the directory `top` for scratch
directories.  Processes come to these ends. -/
def hostAt (top : Location) (content : ByteArray) (script : Script) (system : System := {}) :
    Host where
  view := ⟨repositoryWith content top, ["r"], ⟨"/h", []⟩⟩
  scratch := ⟨top ++ ["w"], top ++ ["h"]⟩
  revision := .printed "abc\n"
  script := script
  system := system

/-- A host with a place for scratch directories beside the repository. -/
def hostWith (content : ByteArray) (script : Script) : Host := hostAt ["s"] content script

def runWords : List String := ["run", "--workflow-file", "ci"]

def runRequest : Request := ⟨false, .run, Path.herePart, "ci", false, false, "docker", false⟩

theorem read_runWords : read [] runWords = .request runRequest := by cbv

section
variable (top : Location) (content : ByteArray) (script : Script) (system : System)

theorem hasDirectory_hostAt :
    hasDirectory (hostAt top content script system) runRequest.path := by
  cbv

theorem head_hostAt : Revision.head (hostAt top content script system).revision = .ok "abc" := by
  cbv

theorem find_hostAt :
    WorkflowFile.find (hostAt top content script system).view runRequest.path
      runRequest.workflowFile = .ok (runRequest.workflowPath, content) := by
  rfl

end

theorem loaded_hostAt (top : Location) (script : Script) {system : System} {text : String}
    (hread : system.readError? runRequest.workflowPath = none) (hreturn : '\r' ∉ text.toList) :
    (hostAt top text.toUTF8 script system).loaded runRequest = Workflow.compile text :=
  WorkflowFile.load_of_text (find_hostAt top _ script system) hread hreturn

theorem loaded_pipeline (top : Location) (script : Script) :
    ((hostAt top pipelineText.toUTF8 script).loaded runRequest).result = .ok pipeline := by
  rw [loaded_hostAt top script rfl (by decide +kernel), compile_pipelineText]

theorem order_pipeline : pipeline.order = .ok [2, 1, 0] := by cbv

theorem scratchDefect?_hostWith (content : ByteArray) (script : Script) :
    (hostWith content script).scratchDefect? runRequest = none := by
  cbv

theorem starts_hostWith (script : Script) :
    (execute (hostWith pipelineText.toUTF8 script) [] runWords).1.starts =
      ((hostWith pipelineText.toUTF8 script).trace runRequest pipeline "abc" [2, 1, 0]).starts := by
  rw [answer_of_read read_runWords]
  exact starts_answer_of_ready rfl (hasDirectory_hostAt _ _ _ _) (loaded_pipeline _ script)
    order_pipeline (head_hostAt _ _ _ _) (scratchDefect?_hostWith _ _)

/-! ## Main result -/

/-- **What an action needs has been run before it**, whatever version control replies and whatever
the started processes do: when the container of an action starts, it is the first time, and all that
the action needs, be it through others, has been run once and has succeeded. -/
theorem needs_before_start (host : Host) (env : Environment) (words : List String) {r : Request}
    {w : Workflow} (hread : read env words = .request r)
    (hload : ((host.inEnvironment env).loaded r).result = .ok w) :
    w.NeedsFirst (execute host env words).1.starts ∧
    ∀ start ∈ (execute host env words).1.starts, ∃ commit a,
      Revision.head host.revision = .ok commit ∧ w.action start.action = .ok a ∧
      Container.command w a (host.setup r commit) = .ok start.words := by
  rw [answer_of_read hread]
  rcases starts_answer (host.inEnvironment env) r with
    hnone | ⟨w', ids, commit, hw, hids, hcommit, hrun⟩
  · rw [hnone]
    refine ⟨w.needsFirst_nil, ?_⟩
    simp
  · obtain rfl : w = w' := Except.ok.inj (hload.symm.trans hw)
    rw [hrun]
    have hstarted := Run.started_actions w ((host.inEnvironment env).setup r commit) r.dry
      (host.inEnvironment env).system ids (host.inEnvironment env).script
    have horder := Workflow.isOrder_of_order (WorkflowFile.inRange_of_load hload).2 hids
    refine ⟨Workflow.needsFirst_of_started horder hstarted, ?_⟩
    intro start hstart
    obtain ⟨a, ha, hwords⟩ := hstarted.command_of_mem start hstart
    exact ⟨commit, a, hcommit, ha, hwords⟩

/-- The last action of three fails, after the two that it needs have succeeded. -/
theorem needs_before_start_pipeline :
    let host := hostWith pipelineText.toUTF8 [.exited 0, .exited 0, .exited 3]
    let starts := (execute host [] runWords).1.starts
    read [] runWords = .request runRequest ∧
    ((host.inEnvironment []).loaded runRequest).result = .ok pipeline ∧
    starts.map (fun start => (start.action, start.ending))
      = [(2, .exited 0), (1, .exited 0), (0, .exited 3)] ∧
    pipeline.NeedsFirst starts ∧
    ∀ start ∈ starts, ∃ commit a,
      Revision.head host.revision = .ok commit ∧ pipeline.action start.action = .ok a ∧
      Container.command pipeline a (host.setup runRequest commit) = .ok start.words := by
  refine ⟨read_runWords, loaded_pipeline _ _, ?_,
    needs_before_start _ _ _ read_runWords (loaded_pipeline _ _)⟩
  rw [starts_hostWith]
  rfl

end ContainerFlow.CommandLine
