/-
ContainerFlow.Proofs.CommandLine.Release — what a command line leaves
behind in the tree of files.

Only a run makes scratch directories, and it makes them last: the
workflow file has been found, read and compiled, its actions have an order
and the commit is known.  A run that is refused before (`Host.Refuses`)
does not come to the place for scratch directories at all, so that what it
does is the same wherever that is.  All other runs release the directories
however the actions end, by what is known of `Scratch.during`.

The main statement is `leaves_no_scratch`.
-/
import Mathlib
import ContainerFlow.Proofs.CommandLine.Exit
import ContainerFlow.Proofs.Scratch.Release

namespace ContainerFlow.CommandLine

variable {host : Host} {env : Environment} {r : Request}

/-! ## Trees -/

/-- The tree that work in the scratch directories of a request leaves. -/
def Host.treeAfter {α : Type} (host : Host) (r : Request) (work : FileTree → α × FileTree) :
    FileTree :=
  (host.scratch.during r.keepWorkspace host.view.tree host.view.here r.repository
    (Path.ofText host.workspaceDir) host.system work).2

theorem tree_runIn (host : Host) (r : Request) (w : Workflow) (ids : List Nat) (commit : String)
    (shown : List Message) :
    (runIn host r w ids commit shown).tree =
      host.treeAfter r fun u => (host.trace r w commit ids, u) := by
  rw [runIn, Host.treeAfter, Scratch.during, Scratch.worked]
  generalize host.scratch.prepare host.view.tree host.view.here r.repository
    (Path.ofText host.workspaceDir) host.system = prepared
  obtain ⟨tree, _ | d⟩ := prepared <;> rfl

/-- A run that comes to its actions leaves what work in its scratch directories leaves. -/
theorem tree_answer_of_run {w : Workflow} {ids : List Nat} {commit : String}
    (hrun : r.command = .run) (hpath : hasDirectory host r.path)
    (hload : (host.loaded r).result = .ok w)
    (hids : w.order = .ok ids) (hcommit : Revision.head host.revision = .ok commit) :
    (answer host r).tree = host.treeAfter r fun u => (host.trace r w commit ids, u) := by
  rw [answer, if_neg (not_refused_of_path fun _ => hpath)]
  simp only [prepare, hload, hids, perform, hrun, run, hcommit, tree_runIn]

/-- The tree of files afterwards is as it was before, or as work in scratch directories leaves it
that changes no files. -/
def LeavesTree (host : Host) (r : Request) (o : Outcome) : Prop :=
  o.tree = host.view.tree ∨ r.command = .run ∧
    ∃ work : FileTree → Trace × FileTree, (∀ u, (work u).2 = u) ∧ o.tree = host.treeAfter r work

theorem leavesTree_perform (host : Host) (r : Request) (w : Workflow) (ids : List Nat) :
    LeavesTree host r (perform host r w ids) := by
  cases hcommand : r.command with
  | check =>
    left
    simp [perform, hcommand, Outcome.quiet]
  | plan =>
    left
    simp only [perform, hcommand]
    split <;> rfl
  | run =>
    simp only [perform, hcommand, run]
    split
    · exact .inl rfl
    · exact .inr ⟨hcommand, _, fun _ => rfl, tree_runIn host r w ids _ _⟩

theorem leavesTree_answer (host : Host) (r : Request) : LeavesTree host r (answer host r) := by
  unfold answer
  split
  · exact .inl rfl
  · split
    · exact .inl rfl
    · exact leavesTree_perform host r _ _

theorem tree_execute (host : Host) (env : Environment) (words : List String) :
    (execute host env words).1.tree = host.view.tree ∨
      ∃ r, read env words = .request r ∧
        LeavesTree (host.inEnvironment env) r (execute host env words).1 := by
  rw [execute]
  cases read env words with
  | help => exact .inl rfl
  | misuse why => exact .inl rfl
  | defect d => exact .inl rfl
  | request r => exact .inr ⟨r, rfl, leavesTree_answer _ r⟩

/-! ## Refusals -/

/-- Why a run is refused before there are scratch directories. -/
inductive Host.Refuses (host : Host) (r : Request) : Prop where
  /-- There is no workflow file. -/
  | missing {fault : Fault}
      (notFound : WorkflowFile.find host.view r.path r.workflowFile = .error fault)
  /-- The file may not be read, or is not one of text. -/
  | unreadable {p : Path} {content : ByteArray} {fault : Fault}
      (found : WorkflowFile.find host.view r.path r.workflowFile = .ok (p, content))
      (unread : WorkflowFile.read host.system p content = .error fault)
  /-- The text is no workflow that passes its review. -/
  | invalid {p : Path} {content : ByteArray} {text : String} {fault : Fault}
      (found : WorkflowFile.find host.view r.path r.workflowFile = .ok (p, content))
      (read : WorkflowFile.read host.system p content = .ok text)
      (refused : (Workflow.compile text).result = .error fault)
  /-- The actions need each other. -/
  | cyclic {w : Workflow} {fault : Fault}
      (compiled : (host.loaded r).result = .ok w) (unordered : w.order = .error fault)
  /-- Version control does not tell the commit. -/
  | unknownCommit {fault : Fault} (unknown : Revision.head host.revision = .error fault)

theorem Host.Refuses.cases (h : host.Refuses r) :
    (∃ fault, (prepare host r).1 = .error fault) ∨
      ∃ fault, Revision.head host.revision = .error fault := by
  cases h with
  | missing notFound =>
    left
    simp [prepare, Host.loaded, WorkflowFile.load, notFound]
  | unreadable found unread =>
    left
    simp [prepare, Host.loaded, WorkflowFile.load, found, unread]
  | invalid found read refused =>
    left
    simp [prepare, Host.loaded, WorkflowFile.load, found, read, refused]
  | cyclic compiled unordered =>
    left
    simp [prepare, compiled, unordered]
  | unknownCommit unknown => exact .inr ⟨_, unknown⟩

/-- The host with another place for scratch directories. -/
def Host.withScratch (host : Host) (s : Scratch) (workspaceDir homeDir : String) : Host :=
  { host with scratch := s, workspaceDir := workspaceDir, homeDir := homeDir }

section
variable (host : Host) (s : Scratch) (workspaceDir homeDir : String)

@[simp] theorem revision_withScratch :
    (host.withScratch s workspaceDir homeDir).revision = host.revision := rfl

@[simp] theorem hasDirectory_withScratch (path : String) :
    hasDirectory (host.withScratch s workspaceDir homeDir) path = hasDirectory host path := rfl

@[simp] theorem prepare_withScratch (r : Request) :
    prepare (host.withScratch s workspaceDir homeDir) r = prepare host r := rfl

end

/-- A run that is refused does the same wherever the scratch directories would be, and that is to
start nothing and to leave the tree as it is. -/
theorem Host.Refuses.answer_withScratch (h : host.Refuses r) (hrun : r.command = .run) :
    ∃ exit messages, ∀ s workspaceDir homeDir,
      answer (host.withScratch s workspaceDir homeDir) r =
        ⟨exit, messages, [], host.view.tree⟩ := by
  by_cases hpath : hasDirectory host r.path
  · have hproper : ¬ (r.command = .run ∧ !hasDirectory host r.path) :=
      not_refused_of_path fun _ => hpath
    cases hprepared : prepare host r with
    | mk result shown =>
      cases result with
      | error fault =>
        refine ⟨(endOfFault fault).2, shown ++ (endOfFault fault).1, fun s _ _ => ?_⟩
        rw [answer, hasDirectory_withScratch, if_neg hproper, prepare_withScratch, hprepared]
        rfl
      | ok ready =>
        obtain ⟨w, ids⟩ := ready
        obtain ⟨fault, hfault⟩ : ∃ fault, Revision.head host.revision = .error fault := by
          simpa [hprepared] using h.cases
        let started := Message.runStarted w.name r.workflowPath.render w.size r.dry
        refine ⟨(endOfFault fault).2, shown ++ started :: (endOfFault fault).1, fun s _ _ => ?_⟩
        rw [answer, hasDirectory_withScratch, if_neg hproper, prepare_withScratch, hprepared]
        simp only [perform, hrun, run, revision_withScratch, hfault]
        rfl
  · refine ⟨.code misuseCode, [.usage false], fun s _ _ => ?_⟩
    rw [answer, hasDirectory_withScratch, if_pos ⟨hrun, by simpa using hpath⟩]
    rfl

/-! ## Main result -/

/-- What a command line leaves of its scratch directories, and of everything else.  It changes
nothing else; a run that is not to keep them leaves nothing of them but what is on the way to
something that the system holds; and a run that is refused makes none. -/
structure LeavesNoScratch (host : Host) (env : Environment) (words : List String) : Prop where
  untouched : host.scratch.rest (execute host env words).1.tree = host.view.tree
  held : (∀ r, read env words = .request r → r.command = .run → r.keepWorkspace = false) →
    ∀ e ∈ (execute host env words).1.tree.entries, ¬ host.scratch.Outside e.1 →
      (execute host env words).1.tree.isHeld host.system.holds e.1
  /-- When the system holds nothing there, the tree is as it was. -/
  released : (∀ r, read env words = .request r → r.command = .run → r.keepWorkspace = false) →
    (∀ place, ¬ host.scratch.Outside place → host.system.holds place = false) →
    (execute host env words).1.tree = host.view.tree
  refused : ∀ r, read env words = .request r → r.command = .run →
    (host.inEnvironment env).Refuses r →
    ∃ exit messages, ∀ s workspaceDir homeDir,
      (execute (host.withScratch s workspaceDir homeDir) env words).1 =
        ⟨exit, messages, [], host.view.tree⟩

/-- **Nothing else is touched, and scratch directories are gone in the end**, however preparing
them, working in them and the whole command line may end, unless the system holds something in
them. -/
theorem leaves_no_scratch (ht : host.view.tree.IsTree)
    (hs : host.scratch.IsFreshIn host.view.tree) :
    host.scratch.CleansUp host.view.tree host.system ∧
      ∀ env words, LeavesNoScratch host env words := by
  have hcleans := Scratch.cleansUp ht hs host.system
  have hsame : host.scratch.rest host.view.tree = host.view.tree := Scratch.rest_eq_self ht hs
  have hall : ∀ e ∈ host.view.tree.entries, host.scratch.Outside e.1 := fun e he =>
    Scratch.outside_of_isSome ht hs (FileTree.isSome_entry?_of_mem he)
  refine ⟨hcleans, fun env words => ?_⟩
  have hleaves := tree_execute host env words
  have hstays {work : FileTree → Trace × FileTree} (hwork : ∀ u, (work u).2 = u) :
      host.scratch.StaysIn work := fun u => congrArg _ (hwork u)
  constructor
  case untouched =>
    rcases hleaves with htree | ⟨r, -, htree | ⟨-, work, hwork, htree⟩⟩
    · rw [htree, hsame]
    · exact (congrArg _ htree).trans hsame
    · exact (congrArg _ htree).trans (hcleans.untouched _ work (hstays hwork) _ _ _ _)
  case held =>
    intro hkeep e he hinside
    rcases hleaves with htree | ⟨r, hread, htree | ⟨hrun, work, hwork, htree⟩⟩
    · exact absurd (hall e (htree ▸ he)) hinside
    · exact absurd (hall e (htree ▸ he)) hinside
    · rw [htree, Host.treeAfter, hkeep r hread hrun] at he ⊢
      exact hcleans.held _ work _ _ _ e he hinside
  case released =>
    intro hkeep hfree
    rcases hleaves with htree | ⟨r, hread, htree | ⟨hrun, work, hwork, htree⟩⟩
    · exact htree
    · exact htree
    · rw [htree, Host.treeAfter, hkeep r hread hrun]
      exact (hcleans.released _ work (hstays hwork) _ _ _).mpr fun e _ => hfree e.1
  case refused =>
    intro r hread hrun hrefuses
    obtain ⟨exit, messages, hanswer⟩ := hrefuses.answer_withScratch hrun
    refine ⟨exit, messages, fun s workspaceDir homeDir => ?_⟩
    rw [answer_of_read hread]
    exact hanswer s workspaceDir homeDir

/-- A repository with a directory in it, and with the place for scratch directories. -/
def crowdedTree (content : ByteArray) : FileTree :=
  ⟨[(["r"], .directory), (["r", "ci"], .file content), (["r", "d"], .directory),
    (["r", "d", "f"], .file ⟨#[1]⟩), (["r", "tmp"], .directory)]⟩

/-- A host with this repository. -/
def crowdedHost (content : ByteArray) (revision : Revision.Reply) (system : System := {}) :
    Host where
  view := ⟨crowdedTree content, ["r"], ⟨"/h", []⟩⟩
  scratch := ⟨["r", "tmp", "w"], ["r", "tmp", "h"]⟩
  revision := revision
  script := [.exited 0, .interrupted]
  system := system

section
variable (content : ByteArray) (revision : Revision.Reply) (system : System)

theorem isTree_crowdedHost : (crowdedHost content revision system).view.tree.IsTree := by
  constructor
  · show List.Nodup [["r"], ["r", "ci"], ["r", "d"], ["r", "d", "f"], ["r", "tmp"]]
    decide
  · intro e he
    simp only [crowdedHost, crowdedTree, List.mem_cons, List.not_mem_nil, or_false] at he
    rcases he with rfl | rfl | rfl | rfl | rfl <;> rfl

theorem isFreshIn_crowdedHost :
    (crowdedHost content revision system).scratch.IsFreshIn
      (crowdedHost content revision system).view.tree :=
  ⟨by simp [crowdedHost], ⟨rfl, rfl⟩, ⟨rfl, rfl⟩⟩

theorem hasDirectory_crowdedHost :
    hasDirectory (crowdedHost content revision system) runRequest.path := by
  cbv

theorem head_crowdedHost :
    Revision.head (crowdedHost content (.printed "abc\n") system).revision = .ok "abc" := by
  cbv

theorem scratchDefect?_crowdedHost :
    (crowdedHost content revision).scratchDefect? runRequest = none := by
  cbv

end

theorem loaded_crowdedHost (revision : Revision.Reply) {system : System}
    (hread : system.readError? runRequest.workflowPath = none) :
    ((crowdedHost pipelineText.toUTF8 revision system).loaded runRequest).result =
      .ok pipeline := by
  have hfind : WorkflowFile.find (crowdedHost pipelineText.toUTF8 revision system).view
      runRequest.path runRequest.workflowFile =
        .ok (runRequest.workflowPath, pipelineText.toUTF8) := by rfl
  have hloaded : (crowdedHost pipelineText.toUTF8 revision system).loaded runRequest =
      Workflow.compile pipelineText :=
    WorkflowFile.load_of_text hfind hread (by decide +kernel)
  rw [hloaded, compile_pipelineText]

/-- A run that the user stops in the second container leaves nothing behind.  To keep the scratch
directories is to change nothing else, and without version control there are none. -/
theorem leaves_no_scratch_crowdedHost :
    let host := crowdedHost pipelineText.toUTF8 (.printed "abc\n")
    let unversioned := crowdedHost pipelineText.toUTF8 .missing
    let o := (execute host [] runWords).1
    host.view.tree.IsTree ∧ host.scratch.IsFreshIn host.view.tree ∧
    o.starts.map (·.ending) = [.exited 0, .interrupted] ∧ o.tree = host.view.tree ∧
    host.scratch.rest (execute host [] (runWords ++ ["--keep-workspace"])).1.tree =
      host.view.tree ∧
    ∃ exit messages, ∀ s workspaceDir homeDir,
      (execute (unversioned.withScratch s workspaceDir homeDir) [] runWords).1 =
        ⟨exit, messages, [], unversioned.view.tree⟩ := by
  intro host unversioned o
  have ht (revision : Revision.Reply) := isTree_crowdedHost pipelineText.toUTF8 revision {}
  have hs (revision : Revision.Reply) := isFreshIn_crowdedHost pipelineText.toUTF8 revision {}
  obtain ⟨-, hleaves⟩ := leaves_no_scratch (ht (.printed "abc\n")) (hs (.printed "abc\n"))
  obtain ⟨-, hunversioned⟩ := leaves_no_scratch (ht .missing) (hs .missing)
  have hstarts : o.starts = (host.trace runRequest pipeline "abc" [2, 1, 0]).starts := by
    rw [show o = answer host runRequest from answer_of_read read_runWords host]
    exact starts_answer_of_ready rfl (hasDirectory_crowdedHost _ _ _) (loaded_crowdedHost _ rfl)
      order_pipeline (head_crowdedHost _ _) (scratchDefect?_crowdedHost _ _)
  refine ⟨ht _, hs _, ?_, ?_, (hleaves [] _).untouched, ?_⟩
  · rw [hstarts]
    rfl
  · refine (hleaves [] runWords).released (fun r hread _ => ?_) fun _ _ => rfl
    cases Asked.request.inj (read_runWords.symm.trans hread)
    rfl
  · exact (hunversioned [] runWords).refused runRequest read_runWords rfl (.unknownCommit rfl)

/-- A system that does not let a file of the workspace be taken away, as for the copy of one in a
directory that may not be written to. -/
def holdingSystem : System where
  holds place := place = ["r", "tmp", "w", "d", "f"]

/-- What the system holds is left behind without a word, with the workspace that it is in. -/
theorem leaves_held_file :
    let host := crowdedHost pipelineText.toUTF8 (.printed "abc\n") holdingSystem
    let o := (execute host [] runWords).1
    host.view.tree.IsTree ∧ host.scratch.IsFreshIn host.view.tree ∧
    read [] runWords = .request runRequest ∧ runRequest.keepWorkspace = false ∧
    o.tree.entry? host.scratch.workspace = some .directory ∧
    o.tree.entry? (host.scratch.workspace ++ ["d", "f"]) = some (.file ⟨#[1]⟩) ∧
    o.tree.entry? host.scratch.home = none ∧ o.tree ≠ host.view.tree := by
  intro host o
  have htree : o.tree =
      host.treeAfter runRequest fun u => (host.trace runRequest pipeline "abc" [2, 1, 0], u) := by
    rw [show o = answer host runRequest from answer_of_read read_runWords host]
    exact tree_answer_of_run rfl (hasDirectory_crowdedHost _ _ _) (loaded_crowdedHost _ rfl)
      order_pipeline (head_crowdedHost _ _)
  have hworkspace : o.tree.entry? host.scratch.workspace = some .directory := by
    rw [htree]
    decide +kernel
  refine ⟨isTree_crowdedHost _ _ _, isFreshIn_crowdedHost _ _ _, read_runWords, rfl, hworkspace,
    ?_, ?_, fun hsame => ?_⟩
  · rw [htree]
    decide +kernel
  · rw [htree]
    decide +kernel
  · rw [hsame, (isFreshIn_crowdedHost _ _ holdingSystem).workspace.free] at hworkspace
    cases hworkspace

end ContainerFlow.CommandLine
