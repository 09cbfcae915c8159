/-
ContainerFlow.Proofs.CommandLine.Exit — what a run starts, and its exit
status.

The first fault decides both: how many containers are started, and the
exit code (`CommandLine.Exits`).  That takes for granted that the actions
come to run at all.  A run is refused when its path leads to no
directory, and it comes to nothing when the scratch directories cannot be
made; in both cases nothing is started, and the exit status is not zero.

The main statement is `run_stops_at_first_fault`.
-/
import Mathlib
import ContainerFlow.Proofs.CommandLine
import ContainerFlow.Proofs.Path
import ContainerFlow.Proofs.Run.Stop
import ContainerFlow.Proofs.Scratch

namespace ContainerFlow.CommandLine

variable {host : Host} {r : Request} {w : Workflow} {ids : List Nat} {commit : String}

/-! ## From the end of a run to the exit -/

/-- How a run of these actions exits when so many containers have started. -/
structure Exits (w : Workflow) (ids : List Nat) (script : Script) (count : Nat) (e : Exit) :
    Prop where
  /-- The exit status is zero when all containers are started and succeed, and only then. -/
  zero_iff : e.status = 0 ↔ count = ids.length ∧ ∀ i < count, script.ending i = .exited 0
  failed : ∀ i code, count = i + 1 → script.ending i = .exited code → code ≠ 0 → e = .code code
  missing : ∀ i, count = i + 1 → script.ending i = .missing → e = .code 1
  interrupted : ∀ i, count = i + 1 → script.ending i = .interrupted → e = .code 130
  /-- Without such a process it is the next action that stops the run: its image cannot be run. -/
  unsupported : ∀ id, ids[count]? = some id → ¬ w.Runnable id →
    (∀ i < count, script.ending i = .exited 0) → e = .code 1
  /-- Or its command is refused. -/
  refused : ∀ id, ids[count]? = some id → w.Runnable id →
    (∀ i < count, script.ending i = .exited 0) → e.status = 1

theorem status_endOf_ne_zero {binary : String} {ending : ProcessEnd} (h : ending ≠ .exited 0) :
    (endOfRun (Run.endOf binary ending)).2.status ≠ 0 := by
  cases ending with
  | exited code =>
    intro hzero
    exact h (congrArg ProcessEnd.exited hzero)
  | missing =>
    show failureCode ≠ 0
    decide
  | interrupted =>
    show interruptCode ≠ 0
    decide

theorem exits_of_ends {s : Container.Setup} {sys : System} {script : Script} {count : Nat}
    {e : RunEnd} (hstops : Run.StopsAfter w s sys ids script count)
    (hends : Run.Ends w s sys ids script count e) : Exits w ids script count (endOfRun e).2 := by
  have hunsupported : ∀ id, ids[count]? = some id → ¬ w.Runnable id →
      (∀ i < count, script.ending i = .exited 0) → (endOfRun e).2 = .code 1 := by
    intro id hid hnot hall
    obtain ⟨name, uses, rfl⟩ := hends.unsupported id hid hnot hall
    rfl
  have hrefused : ∀ id, ids[count]? = some id → w.Runnable id →
      (∀ i < count, script.ending i = .exited 0) → (endOfRun e).2.status = 1 := by
    intro id hid hrunnable hall
    obtain ⟨text, rfl⟩ := hends.refused id hid hrunnable hall
    rfl
  constructor
  case failed =>
    intro i code hi hcode hne
    rw [hends.failed i hi (by simpa [hcode] using hne), hcode]
    rfl
  case missing =>
    intro i hi hmissing
    rw [hends.failed i hi (by simp [hmissing]), hmissing]
    rfl
  case interrupted =>
    intro i hi hinterrupted
    rw [hends.failed i hi (by simp [hinterrupted]), hinterrupted]
    rfl
  case unsupported => exact hunsupported
  case refused => exact hrefused
  case zero_iff =>
    constructor
    · intro hzero
      have hall : ∀ i < count, script.ending i = .exited 0 := by
        intro i hi
        rcases Nat.lt_or_eq_of_le (Nat.succ_le_of_lt hi) with hlt | hlast
        · exact hstops.succeeded i hlt
        · -- Any other end of the last process shows in the exit status.
          by_contra hne
          rw [hends.failed i hlast.symm hne] at hzero
          exact status_endOf_ne_zero hne hzero
      refine ⟨?_, hall⟩
      by_contra hne
      have hlt : count < ids.length := Nat.lt_of_le_of_ne hstops.le hne
      have hid : ids[count]? = some ids[count] := List.getElem?_eq_getElem hlt
      by_cases hrunnable : w.Runnable ids[count]
      · exact absurd (hzero.symm.trans (hrefused _ hid hrunnable hall)) (by decide)
      · rw [hunsupported _ hid hrunnable hall] at hzero
        exact absurd hzero (by decide)
    · rintro ⟨hlength, hall⟩
      rw [hends.finished hlength hall]
      rfl

/-! ## From a request to the end of a run -/

theorem exit_runIn (host : Host) (r : Request) (w : Workflow) (ids : List Nat) (commit : String)
    (shown : List Message) :
    (runIn host r w ids commit shown).exit =
      match host.scratchDefect? r with
      | none => (endOfRun (host.trace r w commit ids).ending).2
      | some d => .defect d := by
  rw [runIn, Host.scratchDefect?, ← Host.prepared]
  generalize host.prepared r = prepared
  obtain ⟨tree, _ | d⟩ := prepared <;> rfl

/-- A request exits as what is to be done with a workflow does, once its file is compiled and has an
order. -/
theorem exit_answer_of_prepared (hpath : r.command = .run → hasDirectory host r.path)
    (hload : (host.loaded r).result = .ok w)
    (hids : w.order = .ok ids) : (answer host r).exit = (perform host r w ids).exit := by
  rw [answer, if_neg (not_refused_of_path hpath)]
  simp only [prepare, hload, hids]

/-- A run exits as its actions do, unless the scratch directories cannot be made. -/
theorem exit_answer_of_run (hrun : r.command = .run) (hpath : hasDirectory host r.path)
    (hload : (host.loaded r).result = .ok w)
    (hids : w.order = .ok ids) (hcommit : Revision.head host.revision = .ok commit) :
    (answer host r).exit =
      match host.scratchDefect? r with
      | none => (endOfRun (host.trace r w commit ids).ending).2
      | some d => .defect d := by
  rw [exit_answer_of_prepared (fun _ => hpath) hload hids]
  simp only [perform, hrun, run, hcommit, exit_runIn]

/-- The actions of a request come to run: its path leads to a directory, and the scratch directories
can be made. -/
def Host.IsReady (host : Host) (r : Request) : Prop :=
  hasDirectory host r.path ∧ host.scratchDefect? r = none

/-- The scratch directories of a request can be made if what is to be copied is within the limits,
and in no other case. -/
theorem scratchDefect?_eq_none_iff {place : Location} (ht : host.view.tree.IsTree)
    (hs : host.scratch.IsFreshIn host.view.tree)
    (hplace : host.view.tree.directoryAt host.view.here r.repository = .ok place) :
    host.scratchDefect? r = none ↔
      host.scratch.WithinLimits host.view.tree
        ⟨place, r.repository, Path.ofText host.workspaceDir⟩ host.system :=
  Scratch.defect_prepare_eq_none_iff hplace ht hs

/-- A run whose actions do not come to run starts nothing and does not succeed. -/
theorem answer_of_not_ready (hrun : r.command = .run)
    (hload : (host.loaded r).result = .ok w)
    (hids : w.order = .ok ids) (hcommit : Revision.head host.revision = .ok commit)
    (h : ¬ host.IsReady r) :
    (answer host r).starts = [] ∧ (answer host r).exit.status ≠ 0 := by
  by_cases hpath : hasDirectory host r.path
  · have hscratch : host.scratchDefect? r ≠ none := fun hnone => h ⟨hpath, hnone⟩
    obtain ⟨d, hd⟩ := Option.ne_none_iff_exists'.mp hscratch
    constructor
    · rw [starts_answer_of_prepared (fun _ => hpath) hload hids, starts_perform, if_pos hrun, run,
        hcommit]
      simp only [starts_runIn, if_neg hscratch]
    · rw [exit_answer_of_run hrun hpath hload hids hcommit, hd]
      simp [Exit.status, defectCode]
  · rw [answer, if_pos ⟨hrun, by simpa using hpath⟩]
    refine ⟨rfl, ?_⟩
    show misuseCode ≠ 0
    decide

/-! ## Main result -/

/-- A run of these actions has come so far, and has done nothing else: the containers of the first
actions are started, one for each and in order, and the exit follows from that. -/
structure RunsUpTo (w : Workflow) (s : Container.Setup) (ids : List Nat) (script : Script)
    (count : Nat) (o : Outcome) : Prop where
  actions : o.starts.map (·.action) = ids.take count
  endings : o.starts.map (·.ending) = (List.range count).map script.ending
  commands : ∀ start ∈ o.starts,
    ∃ a, w.action start.action = .ok a ∧ Container.command w a s = .ok start.words
  exit : Exits w ids script count o.exit

/-- **The first fault decides what a run starts and how it exits**: there is one place at which it
stops the run, and the run comes just so far.  When the actions do not come to run, nothing is
started and the exit status is not zero. -/
theorem run_stops_at_first_fault (host : Host) (env : Environment) (words : List String)
    {r : Request} {w : Workflow} {ids : List Nat} {commit : String}
    (hread : read env words = .request r) (hrun : r.command = .run) (hdry : r.dry = false)
    (hload : ((host.inEnvironment env).loaded r).result = .ok w)
    (hids : w.order = .ok ids) (hcommit : Revision.head host.revision = .ok commit) :
    ((host.inEnvironment env).IsReady r →
      ∃ count, Run.StopsAfter w (host.setup r commit) host.system ids host.script count ∧
        (∀ other, Run.StopsAfter w (host.setup r commit) host.system ids host.script other →
          other = count) ∧
        RunsUpTo w (host.setup r commit) ids host.script count (execute host env words).1) ∧
    (¬ (host.inEnvironment env).IsReady r →
      (execute host env words).1.starts = [] ∧ (execute host env words).1.exit.status ≠ 0) := by
  rw [answer_of_read hread]
  refine ⟨fun ⟨hpath, hscratch⟩ => ?_, answer_of_not_ready hrun hload hids hcommit⟩
  have hsize : ∀ id ∈ ids, id < w.size := fun id hid =>
    ((Workflow.isOrder_of_order (WorkflowFile.inRange_of_load hload).2 hids).complete id).mp hid
  have hstarted := Run.started_actions w (host.setup r commit) false host.system ids host.script
  have hran := Run.ran_actions (host.setup r commit) host.system hsize host.script
  have hstarts := starts_answer_of_ready hrun hpath hload hids hcommit hscratch
  have hexit := exit_answer_of_run hrun hpath hload hids hcommit
  rw [hscratch] at hexit
  rw [Host.trace, hdry] at hstarts hexit
  have hstops := hran.stopsAfter
  refine ⟨_, hstops, fun other hother => hother.unique hstops, ?_⟩
  constructor
  case actions =>
    rw [hstarts]
    have hfirst := List.prefix_iff_eq_take.mp hstarted.map_action_prefix
    rwa [List.length_map] at hfirst
  case endings =>
    rw [hstarts]
    exact hran.map_ending
  case commands =>
    rw [hstarts]
    exact hstarted.command_of_mem
  case exit =>
    rw [hexit]
    exact exits_of_ends hstops hran.ends

theorem isReady_hostWith (content : ByteArray) (script : Script) :
    (hostWith content script).IsReady runRequest :=
  ⟨hasDirectory_hostAt _ _ _ _, scratchDefect?_hostWith _ _⟩

/-- When nothing is refused, an action whose image can be run can start. -/
theorem startable_of_runnable {s : Container.Setup} {id : Nat} (h : w.Runnable id) :
    w.Startable s {} id :=
  ⟨h, fun _ _ _ _ => rfl⟩

theorem runnable_pipeline : ∀ id ∈ [2, 1, 0], pipeline.Runnable id := by
  refine List.forall_mem_cons.mpr ⟨⟨_, rfl, by decide⟩, List.forall_mem_cons.mpr
    ⟨⟨_, rfl, by decide⟩, List.forall_mem_singleton.mpr ⟨_, rfl, by decide⟩⟩⟩

/-- The second of three actions fails, so that the third is not started. -/
theorem run_stops_at_first_fault_pipeline :
    let host := hostWith pipelineText.toUTF8 [.exited 0, .exited (-3)]
    let o := (execute host [] runWords).1
    read [] runWords = .request runRequest ∧
    ((host.inEnvironment []).loaded runRequest).result = .ok pipeline ∧
    pipeline.order = .ok [2, 1, 0] ∧ Revision.head host.revision = .ok "abc" ∧
    (host.inEnvironment []).IsReady runRequest ∧
    Run.StopsAfter pipeline (host.setup runRequest "abc") host.system [2, 1, 0] host.script 2 ∧
    RunsUpTo pipeline (host.setup runRequest "abc") [2, 1, 0] host.script 2 o ∧
    o.exit = .code (-3) := by
  intro host o
  have hready : (host.inEnvironment []).IsReady runRequest := isReady_hostWith _ _
  obtain ⟨count, hstops, hunique, hruns⟩ := (run_stops_at_first_fault host [] runWords
    read_runWords rfl rfl (loaded_pipeline _ _) order_pipeline (head_hostAt _ _ _ _)).1 hready
  have hstartable (id : Nat) (hid : id ∈ [2, 1, 0]) :=
    startable_of_runnable (s := host.setup runRequest "abc") (runnable_pipeline id hid)
  have hfailed : Run.StopsAfter pipeline (host.setup runRequest "abc") host.system [1, 0]
      [.exited (-3)] 1 :=
    .failed (hstartable 1 (by decide)) (by decide)
  obtain rfl : 2 = count := hunique 2 (.next (hstartable 2 (by decide)) rfl hfailed)
  exact ⟨read_runWords, loaded_pipeline _ _, order_pipeline, head_hostAt _ _ _ _, hready, hstops,
    hruns, hruns.exit.failed 1 (-3) rfl rfl (by decide)⟩

/-! ## A place that is too deep for the workspace -/

/-- A place for scratch directories whose paths are just short enough. -/
def deepPlace : Location :=
  List.replicate 20 (String.ofList (List.replicate 199 't')) ++
    [String.ofList (List.replicate 90 't')]

/-- The host with its scratch directories there. -/
def deepHost : Host := hostAt deepPlace pipelineText.toUTF8 []

theorem isTree_deepHost : deepHost.view.tree.IsTree := ⟨by decide +kernel, by decide +kernel⟩

theorem isFreshIn_deepHost : deepHost.scratch.IsFreshIn deepHost.view.tree :=
  ⟨by decide +kernel, ⟨by decide +kernel, by decide +kernel⟩,
    ⟨by decide +kernel, by decide +kernel⟩⟩

theorem isPart_deepName (n : Nat) (hn : n ∈ [199, 90]) :
    Path.IsPart (String.ofList (List.replicate n 't')) := by
  constructor
  case no_slash =>
    rw [String.toList_ofList]
    exact fun hmem => absurd (List.eq_of_mem_replicate hmem) (by decide)
  case ne_empty =>
    revert n
    decide +kernel
  case ne_here =>
    revert n
    decide +kernel

theorem ofText_deepHost :
    Path.ofText deepHost.workspaceDir = ⟨.top, deepHost.scratch.workspace⟩ := by
  refine Path.ofText_render fun name hname => ?_
  change name ∈ deepPlace ++ ["w"] at hname
  simp only [deepPlace, List.mem_append, List.mem_replicate, List.mem_singleton] at hname
  rcases hname with (⟨-, rfl⟩ | rfl) | rfl
  · exact isPart_deepName 199 (by decide)
  · exact isPart_deepName 90 (by decide)
  · exact ⟨by decide, by decide, by decide⟩

/-- There is no room for the name of the workflow file behind the path of the workspace. -/
theorem not_isShort_deepHost :
    ¬ Scratch.Copying.isShort
      ⟨["r"], runRequest.repository, Path.ofText deepHost.workspaceDir⟩ ["ci"] := by
  rw [ofText_deepHost]
  decide +kernel

/-- The scratch directories cannot be made where the workflow file cannot be copied to. -/
theorem not_isReady_deepHost : ¬ deepHost.IsReady runRequest := by
  rintro ⟨-, hnone⟩
  have hplace : deepHost.view.tree.directoryAt deepHost.view.here runRequest.repository =
      .ok ["r"] := by
    decide +kernel
  have hlimits := (scratchDefect?_eq_none_iff isTree_deepHost isFreshIn_deepHost hplace).mp hnone
  have hkeeps : deepHost.scratch.Keeps ["r"] ["ci"] :=
    ⟨by decide, by decide +kernel, by decide +kernel⟩
  exact not_isShort_deepHost (hlimits.short ["ci"] hkeeps (by decide +kernel))

/-! ## A command that cannot be handed on -/

/-- An action with an argument that no program can be given. -/
def zeroText : String :=
  "workflow \"ci\" \x7b on = \"push\" resolves = \"a\" \x7d
action \"a\" \x7b uses = \"docker://i\" args = \"\x00\" \x7d\n"

def zeroBlocks : List Block :=
  [⟨"workflow", "ci", ⟨1, 1⟩,
      [⟨"on", .string "push", ⟨1, 17⟩⟩, ⟨"resolves", .string "a", ⟨1, 29⟩⟩]⟩,
    ⟨"action", "a", ⟨2, 1⟩,
      [⟨"uses", .string "docker://i", ⟨2, 14⟩⟩, ⟨"args", .string "\x00", ⟨2, 34⟩⟩]⟩]

def zeroWorkflow : Workflow where
  name := "ci"
  trigger := .push
  depends := [0]
  actions := [⟨"a", "docker://i", none, some ["\x00"], [], .empty, []⟩]

theorem blocks_zeroText : Block.ofText zeroText = .ok zeroBlocks := by
  -- The tokens are evaluated and not written out.
  have hscan : scan zeroText = scan zeroText := rfl
  conv_rhs at hscan => cbv
  refine Block.ofText_eq_ok_iff.mpr ⟨_, _, hscan, ?_⟩
  rw [readBlocks_of_ok (by cbv), readBlocks_of_ok (by cbv), readBlocks]
  rfl

theorem compile_zeroText : (Workflow.compile zeroText).result = .ok zeroWorkflow := by
  have hds : Definition.ofBlocks zeroBlocks = Definition.ofBlocks zeroBlocks := rfl
  conv_rhs at hds => cbv
  have htext : Workflow.ofText zeroText = .ok zeroWorkflow :=
    Workflow.ofText_eq_ok_iff.mpr ⟨_, _, blocks_zeroText, hds, by cbv⟩
  exact Workflow.compile_eq_ok_iff.mpr ⟨htext, by cbv⟩

/-- The host with this workflow, on a system that does not start what it cannot hand words to. -/
def zeroHost : Host := hostAt ["s"] zeroText.toUTF8 [] .withWordLimits

theorem isReady_zeroHost : zeroHost.IsReady runRequest := by
  have hscratch (content : ByteArray) :
      (hostAt ["s"] content [] .withWordLimits).scratchDefect? runRequest = none := by
    cbv
  exact ⟨hasDirectory_hostAt _ _ _ _, hscratch _⟩

theorem loaded_zeroHost :
    (zeroHost.loaded runRequest).result = .ok zeroWorkflow := by
  rw [zeroHost, loaded_hostAt _ _ rfl (by decide +kernel), compile_zeroText]

theorem order_zeroWorkflow : zeroWorkflow.order = .ok [0] := by cbv

theorem answer_zeroHost :
    (answer zeroHost runRequest).starts = [] ∧ (answer zeroHost runRequest).exit.status = 1 := by
  have hcommit : Revision.head zeroHost.revision = .ok "abc" := head_hostAt _ _ _ _
  rw [starts_answer_of_ready rfl isReady_zeroHost.1 loaded_zeroHost order_zeroWorkflow hcommit
      isReady_zeroHost.2,
    exit_answer_of_run rfl isReady_zeroHost.1 loaded_zeroHost order_zeroWorkflow hcommit,
    isReady_zeroHost.2]
  decide +kernel

/-- All actions can be run and nothing goes wrong with them, and yet nothing is started: where the
path of the workspace is short enough, but not that of the copy of the workflow file, and where an
argument cannot be handed on. -/
theorem run_starts_nothing_when_refused :
    let crowded := (execute deepHost [] runWords).1
    let zero := (execute zeroHost [] runWords).1
    read [] runWords = .request runRequest ∧
    (deepHost.view.tree.IsTree ∧ deepHost.scratch.IsFreshIn deepHost.view.tree ∧
      hasDirectory deepHost runRequest.path ∧
      (deepHost.loaded runRequest).result = .ok pipeline ∧
      pipeline.order = .ok [2, 1, 0] ∧ Revision.head deepHost.revision = .ok "abc" ∧
      Run.StopsAfter pipeline (deepHost.setup runRequest "abc") {} [2, 1, 0] deepHost.script 3 ∧
      crowded.starts = [] ∧ crowded.exit.status ≠ 0) ∧
    zeroHost.IsReady runRequest ∧
    (zeroHost.loaded runRequest).result = .ok zeroWorkflow ∧
    zeroWorkflow.order = .ok [0] ∧ Revision.head zeroHost.revision = .ok "abc" ∧
    Run.StopsAfter zeroWorkflow (zeroHost.setup runRequest "abc") {} [0] zeroHost.script 1 ∧
    zero.starts = [] ∧ zero.exit.status = 1 := by
  intro crowded zero
  have hstartable (id : Nat) (hid : id ∈ [2, 1, 0]) :=
    startable_of_runnable (s := deepHost.setup runRequest "abc") (runnable_pipeline id hid)
  have hcommit : Revision.head deepHost.revision = .ok "abc" := head_hostAt _ _ _ _
  have hload : (deepHost.loaded runRequest).result = .ok pipeline := loaded_pipeline _ _
  have hcrowded : crowded = answer deepHost runRequest := answer_of_read read_runWords deepHost
  have hzero : zero = answer zeroHost runRequest := answer_of_read read_runWords zeroHost
  rw [hcrowded, hzero]
  refine ⟨read_runWords, ⟨isTree_deepHost, isFreshIn_deepHost, hasDirectory_hostAt _ _ _ _, hload,
    order_pipeline, hcommit, ?_, ?_⟩, isReady_zeroHost, loaded_zeroHost, order_zeroWorkflow,
    head_hostAt _ _ _ _, ?_, answer_zeroHost⟩
  · exact .next (hstartable 2 (by decide)) rfl (.next (hstartable 1 (by decide)) rfl
      (.next (hstartable 0 (by decide)) rfl (.nil _ _ _ _)))
  · exact answer_of_not_ready rfl hload order_pipeline hcommit not_isReady_deepHost
  · exact .next (startable_of_runnable ⟨_, rfl, by decide⟩) rfl (.nil _ _ _ _)

end ContainerFlow.CommandLine
