/-
ContainerFlow.Proofs.Resolve.Complaints — which definitions make up a
workflow, and what the others are refused for.

`Definition.Coherent` is that definitions fit together, and
`Definition.complaints` all that is wrong with them, in the order in which
it counts.  First come the actions that bear the name of an earlier one;
then, definition by definition, a workflow behind another, a trigger that
is none, and references to actions that are nowhere in the list; and last
that there is no workflow.  Both are read off the definitions alone, and
they fit together when there is nothing to complain about
(`complaints_eq_nil_iff`).

Numbering makes the first complaints and looking up the second ones, each
of them in order (`failsAsFirst_feedActions`, `failsAsFirst_resolveFrom`).
The main statement is `ofDefinitions_blames_first`.
-/
import Mathlib
import ContainerFlow.Proofs.Complaints
import ContainerFlow.Proofs.Resolve

namespace ContainerFlow

/-! ## Complaints -/

namespace Definition

/-- The names that the actions among the definitions define. -/
def defined (ds : List Definition) : List String := (actions ds).map (·.name)

@[simp] theorem actions_append (ds es : List Definition) :
    actions (ds ++ es) = actions ds ++ actions es := List.filterMap_append

@[simp] theorem workflows_append (ds es : List Definition) :
    workflows (ds ++ es) = workflows ds ++ workflows es := List.filterMap_append

@[simp] theorem defined_nil : defined [] = [] := rfl

@[simp] theorem defined_append (ds es : List Definition) :
    defined (ds ++ es) = defined ds ++ defined es := by
  simp [defined]

@[simp] theorem defined_cons_action (d : ActionDefinition) (ds : List Definition) :
    defined (.action d :: ds) = d.name :: defined ds := rfl

@[simp] theorem defined_cons_workflow (d : WorkflowDefinition) (ds : List Definition) :
    defined (.workflow d :: ds) = defined ds := rfl

/-- Definitions that fit together. -/
structure Coherent (ds : List Definition) : Prop where
  /-- No two actions have the same name. -/
  distinct : (defined ds).Nodup
  /-- There is one workflow, on an event that there is, and it refers to actions. -/
  workflow : ∃ w, workflows ds = [w] ∧ w.trigger = "push" ∧ ∀ name ∈ w.resolves, name ∈ defined ds
  /-- Actions refer to actions. -/
  needs : ∀ a ∈ actions ds, ∀ name ∈ a.needs, name ∈ defined ds

/-- A name that an action among the definitions before bears too. -/
def repeats (before : List Definition) : Definition → List Fault
  | .workflow _ => []
  | .action a =>
    if a.name ∈ defined before then [.atPosition (.duplicateAction a.name) a.position] else []

/-- What a definition at `position` refers to and is none of `names`, from left to right. -/
def strays (names : List String) (referrer : String) (position : Position)
    (references : List String) : List Fault :=
  (references.filter (· ∉ names)).map fun name =>
    .atPosition (.unknownAction referrer name) position

/-- What is wrong with a definition, in view of those before it and of the names of all actions. -/
def mistakes (names : List String) (before : List Definition) : Definition → List Fault
  | .workflow w =>
    (if workflows before = [] then [] else [.atPosition .multipleWorkflows w.position]) ++
      ((if w.trigger = "push" then [] else [.atPosition (.unknownTrigger w.trigger) w.position]) ++
        strays names s!"workflow {w.name}" w.position w.resolves)
  | .action a => strays names s!"action {a.name}" a.position a.needs

/-- All that is wrong with a list of definitions, in the order in which it counts. -/
def complaints (ds : List Definition) : List Fault :=
  inTurn repeats [] ds ++ (inTurn (mistakes (defined ds)) [] ds ++
    if workflows ds = [] then [.ofCause .missingWorkflow] else [])

variable {before ds : List Definition} {names : List String}

theorem inTurn_repeats_eq_nil_iff : inTurn repeats [] ds = [] ↔ (defined ds).Nodup := by
  have hdefined (ds : List Definition) :
      ds.filterMap (fun d => d.action?.map (·.name)) = defined ds := List.map_filterMap.symm
  have hsay (before : List Definition) (d : Definition) : repeats before d = [] ↔
      ∀ name, d.action?.map (·.name) = some name →
        name ∉ before.filterMap fun d => d.action?.map (·.name) := by
    rw [hdefined]
    cases d <;> simp [repeats, action?]
  rw [inTurn_eq_nil_iff_nodup hsay, hdefined]
  simp

theorem strays_eq_nil_iff {referrer : String} {position : Position} {references : List String} :
    strays names referrer position references = [] ↔ ∀ name ∈ references, name ∈ names := by
  simp [strays, List.filter_eq_nil_iff]

theorem mem_strays {referrer : String} {position : Position} {references : List String}
    {fault : Fault} : fault ∈ strays names referrer position references ↔
      ∃ name ∈ references, name ∉ names ∧
        fault = .atPosition (.unknownAction referrer name) position := by
  simp only [strays, List.mem_map, List.mem_filter, decide_eq_true_eq]
  constructor
  · rintro ⟨name, ⟨hmem, hnew⟩, rfl⟩
    exact ⟨name, hmem, hnew, rfl⟩
  · rintro ⟨name, hmem, hnew, rfl⟩
    exact ⟨name, ⟨hmem, hnew⟩, rfl⟩

/-- Nothing is wrong with definitions behind others when they refer to what there is, and there is
no more than one workflow. -/
theorem inTurn_mistakes_eq_nil_iff :
    inTurn (mistakes names) before ds = [] ↔
      (workflows ds = [] ∨ workflows before = [] ∧ ∃ w, workflows ds = [w]) ∧
      (∀ w ∈ workflows ds, w.trigger = "push" ∧ ∀ name ∈ w.resolves, name ∈ names) ∧
      ∀ a ∈ actions ds, ∀ name ∈ a.needs, name ∈ names := by
  induction ds generalizing before with
  | nil => simp [inTurn]
  | cons d rest ih =>
    rw [inTurn, List.append_eq_nil_iff, ih]
    cases d with
    | workflow w =>
      have hfirst : mistakes names before (.workflow w) = [] ↔ workflows before = [] ∧
          w.trigger = "push" ∧ ∀ name ∈ w.resolves, name ∈ names := by
        simp [mistakes, strays_eq_nil_iff]
      have hfew : (workflows rest = [] ∨
          workflows (before ++ [.workflow w]) = [] ∧ ∃ v, workflows rest = [v]) ↔
          workflows rest = [] := by
        simp
      have hone : (w :: workflows rest = [] ∨
          workflows before = [] ∧ ∃ v, w :: workflows rest = [v]) ↔
          workflows before = [] ∧ workflows rest = [] := by
        simp
      rw [hfirst, hfew, workflows_cons_workflow, actions_cons_workflow, List.forall_mem_cons, hone]
      tauto
    | action a =>
      rw [mistakes, strays_eq_nil_iff, workflows_cons_action, actions_cons_action,
        List.forall_mem_cons, workflows_append, workflows_cons_action, workflows_nil,
        List.append_nil]
      tauto

theorem complaints_eq_nil_iff : complaints ds = [] ↔ Coherent ds := by
  have hmissing : (if workflows ds = [] then [Fault.ofCause .missingWorkflow] else []) = [] ↔
      workflows ds ≠ [] := by
    simp
  rw [complaints, List.append_eq_nil_iff, List.append_eq_nil_iff, inTurn_repeats_eq_nil_iff,
    inTurn_mistakes_eq_nil_iff, hmissing]
  constructor
  · rintro ⟨hdistinct, ⟨hone, hworkflow, hneeds⟩, hsome⟩
    obtain ⟨-, w, hw⟩ := hone.resolve_left hsome
    exact ⟨hdistinct, ⟨w, hw, hworkflow w (by simp [hw])⟩, hneeds⟩
  · rintro ⟨hdistinct, ⟨w, hw, hworkflow⟩, hneeds⟩
    refine ⟨hdistinct, ⟨.inr ⟨rfl, w, hw⟩, ?_, hneeds⟩, by simp [hw]⟩
    rw [hw]
    simpa using hworkflow

end Definition

open Definition (defined workflows repeats strays mistakes complaints)

variable {before ds : List Definition}

/-! ## Numbering -/

/-- Numbering goes on behind definitions whose names are in the table. -/
theorem NameTable.failsAsFirst_feedActions {table : NameTable} (h : table.names = defined before) :
    FailsAsFirst (inTurn repeats before ds) (table.feedActions ds) := by
  induction ds generalizing table before with
  | nil => exact .ok table
  | cons d rest ih =>
    cases d with
    | workflow w =>
      rw [feedActions, inTurn, repeats, List.nil_append]
      exact ih (by simpa using h)
    | action a =>
      rw [feedActions, inTurn, repeats, ← h]
      by_cases hmem : a.name ∈ table.names
      · obtain ⟨id, hid⟩ := Option.ne_none_iff_exists'.mp
          fun hnone => get?_eq_none_iff.mp hnone hmem
        rw [if_pos hmem, feed_of_get? hid]
        exact .error _ _
      · rw [if_neg hmem, feed_of_notMem hmem]
        refine ih ?_
        simp [push, h]

/-! ## Looking up -/

theorem NameTable.failsAsFirst_resolve (t : NameTable) (referrer : String) (position : Position)
    (names : List String) :
    FailsAsFirst (strays t.names referrer position names) (t.resolve referrer position names) := by
  induction names with
  | nil => exact .ok []
  | cons name rest ih =>
    rw [resolve]
    cases hname : t.get? name with
    | some id =>
      have hmem : name ∈ t.names := mem_names_of_get? hname
      have hstrays : strays t.names referrer position (name :: rest)
          = strays t.names referrer position rest := by
        simp [strays, hmem]
      rw [hstrays, ← List.append_nil (strays t.names referrer position rest)]
      exact .bind ih fun ids _ => .ok (id :: ids)
    | none =>
      have hnew : name ∉ t.names := get?_eq_none_iff.mp hname
      have hstrays : strays t.names referrer position (name :: rest)
          = .atPosition (.unknownAction referrer name) position ::
            strays t.names referrer position rest := by
        simp [strays, hnew]
      rw [hstrays]
      exact .error _ _

theorem ActionDefinition.failsAsFirst_resolve (t : NameTable) (a : ActionDefinition) :
    FailsAsFirst (strays t.names s!"action {a.name}" a.position a.needs) (a.resolve t) := by
  rw [← List.append_nil (strays _ _ _ _)]
  exact .bind (t.failsAsFirst_resolve _ _ _) fun _ _ => .ok _

theorem WorkflowDefinition.failsAsFirst_resolve (t : NameTable) (w : WorkflowDefinition) :
    FailsAsFirst
      ((if w.trigger = "push" then [] else [.atPosition (.unknownTrigger w.trigger) w.position]) ++
        strays t.names s!"workflow {w.name}" w.position w.resolves) (w.resolve t) := by
  unfold resolve Trigger.ofName?
  by_cases hpush : w.trigger = "push"
  · simp only [if_pos hpush, List.nil_append]
    rw [← List.append_nil (strays _ _ _ _)]
    exact .bind (t.failsAsFirst_resolve _ _ _) fun _ _ => .ok _
  · simp only [if_neg hpush]
    exact .error _ _

/-- Looking up goes on behind definitions of which one is a workflow if its head has been found. -/
theorem failsAsFirst_resolveFrom {t : NameTable} {head? : Option Workflow.Head}
    (h : head? = none ↔ workflows before = []) :
    FailsAsFirst (inTurn (mistakes t.names) before ds) (resolveFrom t head? ds) := by
  induction ds generalizing before head? with
  | nil => exact .ok (head?, [])
  | cons d rest ih =>
    cases d with
    | workflow w =>
      rw [resolveFrom, inTurn, mistakes]
      by_cases hnone : head? = none
      · rw [if_pos (h.mp hnone), List.nil_append, hnone]
        exact .bind (w.failsAsFirst_resolve t) fun head _ => ih (by simp)
      · rw [if_neg (mt h.mpr hnone), if_pos (Option.isSome_iff_ne_none.mpr hnone)]
        exact .error _ _
    | action a =>
      rw [resolveFrom, inTurn, mistakes]
      refine .bind (a.failsAsFirst_resolve t) fun action _ => ?_
      rw [← List.append_nil (inTurn _ _ _)]
      exact .bind (ih (by simpa using h)) fun _ _ => .ok _

/-! ## Main result -/

namespace Workflow

theorem failsAsFirst_ofDefinitions (ds : List Definition) :
    FailsAsFirst (complaints ds) (ofDefinitions ds) := by
  refine .bind (NameTable.failsAsFirst_feedActions rfl) fun t ht => ?_
  have hnames : t.names = defined ds := NameTable.names_of_ofDefinitions ht
  rw [← hnames]
  refine .bind (failsAsFirst_resolveFrom (by simp)) fun found hfrom => ?_
  obtain ⟨head?, actions⟩ := found
  obtain ⟨-, heads, hheads, hout⟩ := forall₂_of_resolveFrom hfrom
  have hcount := hheads.length_eq
  cases head? with
  | some head =>
    cases (show [head] = heads from hout)
    rw [if_neg (fun hnil => by simp [hnil] at hcount)]
    exact .ok _
  | none =>
    cases (show [] = heads from hout)
    rw [if_pos (List.length_eq_zero_iff.mp hcount)]
    exact .error _ _

/-- Definitions make up a workflow when they fit together. -/
theorem exists_ofDefinitions_iff : (∃ w, ofDefinitions ds = .ok w) ↔ Definition.Coherent ds :=
  (failsAsFirst_ofDefinitions ds).exists_ok_iff.trans Definition.complaints_eq_nil_iff

/-- **The first thing that is wrong is what definitions are refused for.**  They make up a workflow
when they fit together, and otherwise the fault is the first of their complaints. -/
theorem ofDefinitions_blames_first (ds : List Definition) :
    ((∃ w, ofDefinitions ds = .ok w) ↔ Definition.Coherent ds) ∧
    ∀ fault, ofDefinitions ds = .error fault ↔ (complaints ds).head? = some fault :=
  ⟨exists_ofDefinitions_iff, failsAsFirst_ofDefinitions ds⟩

/-- A name that two actions bear counts before a trigger that stands in front of both. -/
example :
    let a : ActionDefinition := ⟨"a", "docker://i", ["b"], none, none, .empty, [], ⟨2, 1⟩⟩
    let again : ActionDefinition := { a with position := ⟨3, 1⟩ }
    (complaints [.workflow ⟨"w", "pull", ["a", "c"], ⟨1, 1⟩⟩, .action a, .action again]).head? =
      some (.atPosition (.duplicateAction "a") ⟨3, 1⟩) := by
  decide

end Workflow

end ContainerFlow
