/-
ContainerFlow.Proofs.Plan — a plan shows the definitions that its
workflow comes of.

Resolving puts numbers in the place of names and a plan puts names in
the place of numbers.  The two undo each other: what the plan shows for
a number is the definition that has this place among the actions of the
file (`ofId_of_ofDefinitions`), its needs included, since the names of
the actions stand in the table where the actions stand in the workflow
(`namesOf_of_resolve`).  As an order has every number once, no
definition is lost (`ofOrder_of_ofDefinitions`).
-/
import Mathlib
import ContainerFlow.Plan
import ContainerFlow.Proofs.Resolve
import ContainerFlow.Proofs.Schedule.Order

namespace ContainerFlow

variable {ds : List Definition} {w : Workflow}

/-! ## Names of numbers -/

/-- The numbers that names have resolved to are those of the actions with these names. -/
theorem Workflow.namesOf_of_resolve {t : NameTable}
    (hnames : t.names = (Definition.actions ds).map (·.name))
    (hactions : List.Forall₂ (fun d a => d.resolve t = .ok a) (Definition.actions ds) w.actions)
    {names : List String} {ids : List Nat}
    (h : List.Forall₂ (fun name id => t.get? name = some id) names ids) :
    w.namesOf ids = .ok names := by
  rw [namesOf_eq_ok_iff]
  refine (h.imp fun name id hid => ?_).flip
  rw [NameTable.get?_eq_some_iff, hnames, ← map_name_of_resolve hactions, List.getElem?_map,
    Option.map_eq_some_iff] at hid
  exact hid

namespace Plan

/-! ## Entries of definitions -/

/-- The action of a definition, as plans show the action with the number `id`. -/
def Entry.ofDefinition (id : Nat) (d : ActionDefinition) : Entry where
  id := id
  name := d.name
  uses := d.uses
  needs := d.needs
  runs := d.runs
  args := d.args
  env := d.env
  secrets := d.secrets

/-- The actions of definitions in the order of the file, numbered from zero. -/
def listing (ds : List Definition) : List Entry :=
  (Definition.actions ds).mapIdx Entry.ofDefinition

@[simp] theorem length_listing (ds : List Definition) :
    (listing ds).length = (Definition.actions ds).length := List.length_mapIdx

theorem getElem?_listing (ds : List Definition) (id : Nat) :
    (listing ds)[id]? = (Definition.actions ds)[id]?.map (Entry.ofDefinition id) :=
  List.getElem?_mapIdx

/-- The number of an entry is its place. -/
theorem id_of_getElem?_listing {id : Nat} {e : Entry} (h : (listing ds)[id]? = some e) :
    e.id = id := by
  rw [getElem?_listing, Option.map_eq_some_iff] at h
  obtain ⟨d, -, rfl⟩ := h
  rfl

theorem eq_of_id_eq {e e' : Entry} (h : e ∈ listing ds) (h' : e' ∈ listing ds)
    (hid : e.id = e'.id) : e = e' := by
  obtain ⟨i, hi⟩ := List.mem_iff_getElem?.mp h
  obtain ⟨j, hj⟩ := List.mem_iff_getElem?.mp h'
  rw [id_of_getElem?_listing hi, id_of_getElem?_listing hj] at hid
  rw [hid, hj] at hi
  exact (Option.some.inj hi).symm

theorem pairwise_listing (ds : List Definition) :
    (listing ds).Pairwise (fun a b => a.id ≤ b.id) := by
  rw [List.pairwise_iff_getElem]
  intro i j hi hj hij
  rw [id_of_getElem?_listing (List.getElem?_eq_getElem hi),
    id_of_getElem?_listing (List.getElem?_eq_getElem hj)]
  exact hij.le

theorem pairwise_mergeSort (entries : List Entry) :
    (entries.mergeSort (fun a b => a.id ≤ b.id)).Pairwise (fun a b => a.id ≤ b.id) := by
  refine (List.pairwise_mergeSort ?_ ?_ entries).imp of_decide_eq_true
  · intro a b c hab hbc
    simp only [decide_eq_true_eq] at hab hbc ⊢
    exact hab.trans hbc
  · intro a b
    simpa using Nat.le_total a.id b.id

/-- The entries of the listing, in whatever order they are, come out in the order of the file when
they are sorted by number. -/
theorem mergeSort_eq_listing {entries : List Entry} (h : entries.Perm (listing ds)) :
    entries.mergeSort (fun a b => a.id ≤ b.id) = listing ds := by
  have hperm := (List.mergeSort_perm entries (fun a b => a.id ≤ b.id)).trans h
  refine List.Perm.eq_of_pairwise ?_ (pairwise_mergeSort entries) (pairwise_listing ds) hperm
  intro a b ha hb hab hba
  exact eq_of_id_eq (hperm.mem_iff.mp ha) hb (Nat.le_antisymm hab hba)

/-! ## Plans of resolved definitions -/

/-- What a plan shows for a number is the definition at this place. -/
theorem ofId_of_ofDefinitions (hw : Workflow.ofDefinitions ds = .ok w) {id : Nat} {e : Entry}
    (he : (listing ds)[id]? = some e) : Entry.ofId w id = .ok e := by
  obtain ⟨t, -, -, hnames, hactions, -⟩ := Workflow.resolved_of_ofDefinitions hw
  rw [getElem?_listing, Option.map_eq_some_iff] at he
  obtain ⟨d, hd, rfl⟩ := he
  obtain ⟨a, ha, hda⟩ := exists_getElem?_of_forall₂ hactions hd
  have haction : w.action id = .ok a := by rw [Workflow.action, ha]
  have hneeds : w.namesOf a.needs = .ok d.needs :=
    Workflow.namesOf_of_resolve hnames hactions (ActionDefinition.needs_of_resolve hda)
  refine bind_eq_ok_iff.mpr ⟨a, haction, bind_eq_ok_iff.mpr ⟨d.needs, hneeds, ?_⟩⟩
  rw [ActionDefinition.eq_of_resolve hda]
  rfl

theorem entriesOf_of_forall₂ {ids : List Nat} {entries : List Entry}
    (h : List.Forall₂ (fun id e => Entry.ofId w id = .ok e) ids entries) :
    entriesOf w ids = .ok entries := by
  induction h with
  | nil => rfl
  | cons he _ ih => exact bind_eq_ok_iff.mpr ⟨_, he, bind_eq_ok_iff.mpr ⟨_, ih, rfl⟩⟩

/-- The head of a plan is the workflow definition. -/
theorem head_of_ofDefinitions (hw : Workflow.ofDefinitions ds = .ok w) :
    ∃ d, Definition.workflows ds = [d] ∧ w.name = d.name ∧ w.trigger.name = d.trigger ∧
      w.namesOf w.depends = .ok d.resolves := by
  obtain ⟨t, d, head, hnames, hactions, hworkflow, hd, heq⟩ := Workflow.resolved_of_ofDefinitions hw
  obtain ⟨hname, htrigger⟩ := WorkflowDefinition.eq_of_resolve hd
  have hdepends : w.namesOf head.depends = .ok d.resolves :=
    Workflow.namesOf_of_resolve hnames hactions (WorkflowDefinition.depends_of_resolve hd)
  refine ⟨d, hworkflow, ?_⟩
  rw [heq]
  rw [heq] at hdepends
  exact ⟨hname, htrigger, hdepends⟩

/-! ## A small release -/

/-- A workflow between actions that refer to others further up and further down. -/
def releaseDefinitions : List Definition :=
  [.action ⟨"ship", "docker://s", ["test", "make", "test"], none, none,
      .ofList [("B", "1"), ("A", "2")], ["KEY"], ⟨1, 1⟩⟩,
    .action ⟨"make", "docker://m", [], some ["make", "all"], some [], .empty, [], ⟨2, 1⟩⟩,
    .workflow ⟨"release", "push", ["test", "ship"], ⟨3, 1⟩⟩,
    .action ⟨"test", "docker://t", ["make"], none, some ["-v"], .empty, [], ⟨4, 1⟩⟩]

def releaseWorkflow : Workflow where
  name := "release"
  trigger := .push
  depends := [2, 0]
  actions :=
    [⟨"ship", "docker://s", none, none, [2, 1, 2], .ofList [("B", "1"), ("A", "2")], ["KEY"]⟩,
      ⟨"make", "docker://m", some ["make", "all"], some [], [], .empty, []⟩,
      ⟨"test", "docker://t", none, some ["-v"], [1], .empty, []⟩]

/-! ## Main result -/

/-- **A plan gives the definitions back**: for every order of a workflow that comes of definitions
there is a plan, it has the name, the trigger and the resolved names of the one workflow definition,
and its entries follow the order and, sorted by number, are the definitions of the actions as they
stand in the file, with all that these declare. -/
theorem ofOrder_of_ofDefinitions {ids : List Nat} (hw : Workflow.ofDefinitions ds = .ok w)
    (hids : w.order = .ok ids) :
    ∃ d entries, Definition.workflows ds = [d] ∧
      Plan.ofOrder w ids = .ok
        { workflow := d.name, trigger := d.trigger, resolves := d.resolves, entries := entries } ∧
      entries.map (·.id) = ids ∧
      entries.mergeSort (fun a b => a.id ≤ b.id) = listing ds := by
  obtain ⟨d, hworkflow, hname, htrigger, hresolves⟩ := head_of_ofDefinitions hw
  have horder := Workflow.isOrder_of_order (Workflow.inRange_of_ofDefinitions hw).2 hids
  have hperm : ids.Perm (List.range w.size) := by
    rw [List.perm_ext_iff_of_nodup horder.distinct List.nodup_range]
    simpa using horder.complete
  have hlisting : List.Forall₂ (fun id e => (listing ds)[id]? = some e) (List.range w.size)
      (listing ds) := by
    rw [Workflow.size_of_ofDefinitions hw, ← length_listing, List.forall₂_iff_get]
    simp
  -- Numbers that are rearranged take their entries along.
  obtain ⟨entries, hentries, hsame⟩ := List.perm_comp_forall₂ hperm hlisting
  refine ⟨d, entries, hworkflow, ?_, ?_, mergeSort_eq_listing hsame⟩
  · have hall := entriesOf_of_forall₂ (hentries.imp fun _ _ he => ofId_of_ofDefinitions hw he)
    refine bind_eq_ok_iff.mpr ⟨entries, hall, bind_eq_ok_iff.mpr ⟨d.resolves, hresolves, ?_⟩⟩
    rw [hname, htrigger]
    rfl
  · have hmap : ids.map id = entries.map (·.id) := by
      refine map_eq_map_of_forall₂ ?_ hentries
      intro id e he
      exact (id_of_getElem?_listing he).symm
    rw [← hmap, List.map_id]

/-- The workflow definition stands before an action, and is not counted. -/
theorem ofOrder_of_ofDefinitions_release :
    Workflow.ofDefinitions releaseDefinitions = .ok releaseWorkflow ∧
    releaseWorkflow.order = .ok [1, 2, 0] ∧
    ∃ d entries, Definition.workflows releaseDefinitions = [d] ∧
      Plan.ofOrder releaseWorkflow [1, 2, 0] = .ok
        { workflow := d.name, trigger := d.trigger, resolves := d.resolves, entries := entries } ∧
      entries.map (·.id) = [1, 2, 0] ∧
      entries.mergeSort (fun a b => a.id ≤ b.id) = listing releaseDefinitions := by
  have hw : Workflow.ofDefinitions releaseDefinitions = .ok releaseWorkflow := by cbv
  have hids : releaseWorkflow.order = .ok [1, 2, 0] := by cbv
  exact ⟨hw, hids, ofOrder_of_ofDefinitions hw hids⟩

end Plan

end ContainerFlow
