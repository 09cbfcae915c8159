/-
ContainerFlow.Proofs.Rearrange — the order of the blocks of a file makes
no difference to what they mean.

Definitions in another order give every action another number, and with
the numbers all references change.  Told by names, nothing does:

* `Coherent.of_perm` — the definitions still make up a workflow, or still
  do not;
* `rearranged_of_perm` — the two workflows agree by name
  (`Workflow.Rearranged`), their actions with all that they declare;
* `Rearranged.perm_violations`, `Rearranged.exists_order_iff` — workflows
  that agree by name break the same rules as often, and have an order
  both or neither, since a cycle of numbers is a cycle of names.

The main statement is `ofDefinitions_of_perm`.
-/
import Mathlib
import ContainerFlow.Proofs.Plan
import ContainerFlow.Proofs.Resolve.Complaints
import ContainerFlow.Proofs.Valid

namespace ContainerFlow

open Relation (TransGen)

/-! ## Definitions -/

namespace Definition

variable {ds es : List Definition}

theorem perm_actions (h : ds.Perm es) : (actions ds).Perm (actions es) := h.filterMap _

theorem perm_workflows (h : ds.Perm es) : (workflows ds).Perm (workflows es) := h.filterMap _

theorem perm_defined (h : ds.Perm es) : (defined ds).Perm (defined es) := (perm_actions h).map _

/-- Definitions that fit together do so in any order. -/
theorem Coherent.of_perm (hds : Coherent ds) (h : ds.Perm es) : Coherent es := by
  have hdefined : ∀ name, name ∈ defined ds → name ∈ defined es :=
    fun _ => (perm_defined h).mem_iff.mp
  obtain ⟨w, hw, htrigger, hresolves⟩ := hds.workflow
  constructor
  case distinct => exact (perm_defined h).nodup_iff.mp hds.distinct
  case workflow =>
    have hperm := perm_workflows h
    rw [hw] at hperm
    exact ⟨w, (List.perm_singleton.mp hperm.symm), htrigger,
      fun name hname => hdefined name (hresolves name hname)⟩
  case needs =>
    intro a ha name hname
    exact hdefined name (hds.needs a ((perm_actions h).mem_iff.mpr ha) name hname)

end Definition

namespace Workflow

variable {w w' : Workflow}

/-! ## Agreement by name -/

/-- The numbers refer to the same names, one by one. -/
def SameNames (w w' : Workflow) (ids ids' : List Nat) : Prop :=
  ∃ names, w.namesOf ids = .ok names ∧ w'.namesOf ids' = .ok names

/-- The actions declare the same, and need the same names. -/
structure SameAction (w w' : Workflow) (a a' : Action) : Prop where
  declared : { a with needs := [] } = { a' with needs := [] }
  needs : SameNames w w' a.needs a'.needs

/-- The workflows agree by name: the same head, and the same actions in some order. -/
structure Rearranged (w w' : Workflow) : Prop where
  name : w'.name = w.name
  trigger : w'.trigger = w.trigger
  depends : SameNames w w' w.depends w'.depends
  actions : ∃ rearranged, rearranged.Perm w'.actions ∧
    List.Forall₂ (SameAction w w') w.actions rearranged

/-- Workflows of the same definitions, in whatever order, agree by name. -/
theorem rearranged_of_perm {ds es : List Definition} (h : ds.Perm es)
    (hw : ofDefinitions ds = .ok w) (hw' : ofDefinitions es = .ok w') : Rearranged w w' := by
  obtain ⟨d, hd, hname, htrigger, hdepends⟩ := Plan.head_of_ofDefinitions hw
  obtain ⟨d', hd', hname', htrigger', hdepends'⟩ := Plan.head_of_ofDefinitions hw'
  have hsame : d' = d := by
    have hperm := Definition.perm_workflows h
    rw [hd, hd'] at hperm
    exact List.singleton_inj.mp (List.perm_singleton.mp hperm.symm)
  subst hsame
  obtain ⟨t, -, -, hnames, hactions, -⟩ := resolved_of_ofDefinitions hw
  obtain ⟨t', -, -, hnames', hactions', -⟩ := resolved_of_ofDefinitions hw'
  -- The actions of the second workflow in the order of the first.
  obtain ⟨rearranged, hrearranged, hperm⟩ :=
    List.perm_comp_forall₂ (Definition.perm_actions h) hactions'
  refine ⟨hname'.trans hname.symm, ?_, ⟨_, hdepends, hdepends'⟩, rearranged, hperm, ?_⟩
  · cases w.trigger
    cases w'.trigger
    rfl
  · refine forall₂_join (fun d a a' ha ha' => ?_) hactions hrearranged
    constructor
    case declared => rw [ActionDefinition.eq_of_resolve ha, ActionDefinition.eq_of_resolve ha']
    case needs =>
      exact ⟨d.needs, namesOf_of_resolve hnames hactions (ActionDefinition.needs_of_resolve ha),
        namesOf_of_resolve hnames' hactions' (ActionDefinition.needs_of_resolve ha')⟩

theorem lt_size_of_namesOf {ids : List Nat} {names : List String} (h : w.namesOf ids = .ok names) :
    ∀ id ∈ ids, id < w.size := by
  intro id hid
  obtain ⟨_, -, act, hact, -⟩ := exists_of_mem_right (namesOf_eq_ok_iff.mp h).flip hid
  exact (List.getElem?_eq_some_iff.mp hact).1

namespace Rearranged

theorem symm (h : Rearranged w w') : Rearranged w' w := by
  have hnames {w w' : Workflow} {ids ids' : List Nat} :
      SameNames w w' ids ids' → SameNames w' w ids' ids :=
    fun ⟨names, hids, hids'⟩ => ⟨names, hids', hids⟩
  obtain ⟨rearranged, hperm, hsame⟩ := h.actions
  obtain ⟨back, hback, hperm'⟩ := List.perm_comp_forall₂ hperm.symm hsame.flip
  refine ⟨h.name.symm, h.trigger.symm, hnames h.depends, back, hperm', ?_⟩
  exact hback.imp fun a' a ha => ⟨ha.declared.symm, hnames ha.needs⟩

theorem needsInRange (h : Rearranged w w') : w.NeedsInRange := by
  obtain ⟨rearranged, -, hsame⟩ := h.actions
  intro a ha
  obtain ⟨a', -, hneeds⟩ := exists_of_mem_right hsame.flip ha
  obtain ⟨names, hnames, -⟩ := hneeds.needs
  exact lt_size_of_namesOf hnames

/-- What actions declare beside their needs is the same, in some order. -/
theorem perm_declared (h : Rearranged w w') :
    (w.actions.map fun a => { a with needs := [] }).Perm
      (w'.actions.map fun a => { a with needs := [] }) := by
  obtain ⟨rearranged, hperm, hsame⟩ := h.actions
  rw [map_eq_map_of_forall₂ (fun a a' (ha : SameAction w w' a a') => ha.declared) hsame]
  exact hperm.map _

/-- What is collected from the actions without a look at their needs is the same, in some order. -/
theorem perm_flatMap (h : Rearranged w w') {β : Type} {f : Action → List β}
    (hf : ∀ a, f { a with needs := [] } = f a) :
    (w.actions.flatMap f).Perm (w'.actions.flatMap f) := by
  have hdeclared (actions : List Action) :
      actions.flatMap f = (actions.map fun a => { a with needs := [] }).flatMap f := by
    rw [List.flatMap_map]
    simp only [hf]
  rw [hdeclared w.actions, hdeclared w'.actions]
  exact h.perm_declared.flatMap_right f

/-! ## Policy -/

theorem secrets_eq (h : Rearranged w w') :
    Policy.secretsFound w' = Policy.secretsFound w := by
  have hset : (w'.actions.flatMap (·.secrets)).toFinset =
      (w.actions.flatMap (·.secrets)).toFinset :=
    List.toFinset_eq_of_perm _ _ (h.perm_flatMap fun _ => rfl).symm
  simp only [Policy.secretsFound, Policy.length_secrets, hset]

/-- Workflows that agree by name break the same rules, each as often. -/
theorem perm_violations (h : Rearranged w w') :
    (Policy.review w').violations.Perm (Policy.review w).violations := by
  rw [Policy.review_eq, Policy.review_eq]
  have hnames : (Policy.namesFound w').Perm (Policy.namesFound w) :=
    (h.perm_flatMap fun _ => rfl).symm
  have hwords : (Policy.wordsFound w').Perm (Policy.wordsFound w) :=
    (h.perm_flatMap fun _ => rfl).symm
  refine (hnames.append ?_).append hwords
  rw [h.secrets_eq]

theorem severity_eq (h : Rearranged w w') :
    (Policy.review w').severity = (Policy.review w).severity := by
  have hperm := h.perm_violations
  rw [Policy.review_eq, Policy.review_eq] at hperm ⊢
  have hempty : Policy.allFound w' = [] ↔ Policy.allFound w = [] :=
    ⟨fun hnone => (hnone ▸ hperm).symm.eq_nil, fun hnone => (hnone ▸ hperm).eq_nil⟩
  simp only [Policy.Review.ofViolations, Policy.severityOf, hempty]

end Rearranged

/-! ## Cycles of names -/

/-- An action of the first name needs one of the second. -/
def NeedsByName (w : Workflow) (name need : String) : Prop :=
  ∃ a ∈ w.actions, a.name = name ∧ ∃ needs, w.namesOf a.needs = .ok needs ∧ need ∈ needs

/-- The name of an action; the empty name for a number that none has. -/
def nameAt (w : Workflow) (id : Nat) : String := ((w.actions.map (·.name))[id]?).getD ""

/-- The number of the first action with a name. -/
def numberOf (w : Workflow) (name : String) : Nat := (w.actions.map (·.name)).idxOf name

theorem nameAt_of_getElem? {id : Nat} {a : Action} (h : w.actions[id]? = some a) :
    w.nameAt id = a.name := by
  rw [nameAt, List.getElem?_map, h]
  rfl

theorem numberOf_of_getElem? (hdistinct : (w.actions.map (·.name)).Nodup) {id : Nat} {a : Action}
    (h : w.actions[id]? = some a) : w.numberOf a.name = id := by
  obtain ⟨hid, rfl⟩ := List.getElem?_eq_some_iff.mp h
  have hid' : id < (w.actions.map (·.name)).length := by simpa using hid
  have hname : w.actions[id].name = (w.actions.map (·.name))[id] := (List.getElem_map _).symm
  rw [numberOf, hname]
  exact hdistinct.idxOf_getElem id hid'

theorem needsByName_of_needs (h : w.NeedsInRange) {a b : Nat} (hab : w.Needs a b) :
    w.NeedsByName (w.nameAt a) (w.nameAt b) := by
  obtain ⟨act, hact, hmem⟩ := hab
  have hin := h act (List.mem_of_getElem? hact)
  obtain ⟨names, hnames⟩ := exists_names hin
  obtain ⟨name, hname, other, hother, rfl⟩ := exists_of_mem_right hnames.flip hmem
  rw [nameAt_of_getElem? hact, nameAt_of_getElem? hother]
  exact ⟨act, List.mem_of_getElem? hact, rfl, names, namesOf_eq_ok_iff.mpr hnames, hname⟩

theorem needs_of_needsByName (hdistinct : (w.actions.map (·.name)).Nodup) {name need : String}
    (h : w.NeedsByName name need) : w.Needs (w.numberOf name) (w.numberOf need) := by
  obtain ⟨act, hact, rfl, names, hnames, hmem⟩ := h
  obtain ⟨id, hid⟩ := List.mem_iff_getElem?.mp hact
  obtain ⟨needed, hneeded, other, hother, rfl⟩ :=
    exists_of_mem_right (namesOf_eq_ok_iff.mp hnames) hmem
  rw [numberOf_of_getElem? hdistinct hid, numberOf_of_getElem? hdistinct hother]
  exact ⟨act, hid, hneeded⟩

/-- A cycle of numbers is one of names. -/
theorem acyclic_iff_names (hdistinct : (w.actions.map (·.name)).Nodup) (h : w.NeedsInRange) :
    w.Acyclic ↔ ∀ name, ¬ TransGen w.NeedsByName name name := by
  constructor
  · intro hacyclic name hcycle
    refine hacyclic (w.numberOf name) ?_
    exact hcycle.lift w.numberOf fun _ _ => needs_of_needsByName hdistinct
  · intro hacyclic id hcycle
    refine hacyclic (w.nameAt id) ?_
    exact hcycle.lift w.nameAt fun _ _ => needsByName_of_needs h

namespace Rearranged

theorem needsByName (h : Rearranged w w') {name need : String} (hneed : w.NeedsByName name need) :
    w'.NeedsByName name need := by
  obtain ⟨rearranged, hperm, hsame⟩ := h.actions
  obtain ⟨a, ha, rfl, names, hnames, hmem⟩ := hneed
  obtain ⟨a', ha', hsame⟩ := exists_of_mem_right hsame.flip ha
  obtain ⟨names', hfirst, hsecond⟩ := hsame.needs
  have heq : names = names' := Except.ok.inj (hnames.symm.trans hfirst)
  exact ⟨a', hperm.mem_iff.mp ha', (congrArg Action.name hsame.declared).symm, names',
    hsecond, heq ▸ hmem⟩

theorem nodup_names (h : Rearranged w w') (hdistinct : (w.actions.map (·.name)).Nodup) :
    (w'.actions.map (·.name)).Nodup := by
  have hperm := h.perm_declared.map Action.name
  rw [List.map_map, List.map_map] at hperm
  exact hperm.nodup_iff.mp hdistinct

/-- Actions with different names can be ordered in both of the workflows or in neither. -/
theorem exists_order_iff (h : Rearranged w w') (hdistinct : (w.actions.map (·.name)).Nodup) :
    (∃ ids, w.order = .ok ids) ↔ ∃ ids, w'.order = .ok ids := by
  have hneeds : w.NeedsByName = w'.NeedsByName := by
    funext name need
    exact propext ⟨h.needsByName, h.symm.needsByName⟩
  rw [← acyclic_iff_exists_order h.needsInRange, ← acyclic_iff_exists_order h.symm.needsInRange,
    acyclic_iff_names hdistinct h.needsInRange,
    acyclic_iff_names (h.nodup_names hdistinct) h.symm.needsInRange, hneeds]

end Rearranged

/-! ## Main result -/

/-- **The order of blocks decides nothing**: the same definitions in another order make up a
workflow or not as before, and if they do it has the same name and trigger and by name the same
actions, it breaks the same rules of the service, and its actions can be ordered or not as
before. -/
theorem ofDefinitions_of_perm {ds es : List Definition} (h : ds.Perm es) :
    ((∃ w, ofDefinitions ds = .ok w) ↔ ∃ w', ofDefinitions es = .ok w') ∧
    ∀ w w', ofDefinitions ds = .ok w → ofDefinitions es = .ok w' →
      Rearranged w w' ∧
      (Policy.review w').severity = (Policy.review w).severity ∧
      (Policy.review w').violations.Perm (Policy.review w).violations ∧
      ((∃ ids, w.order = .ok ids) ↔ ∃ ids, w'.order = .ok ids) := by
  constructor
  · rw [exists_ofDefinitions_iff, exists_ofDefinitions_iff]
    exact ⟨fun hds => hds.of_perm h, fun hes => hes.of_perm h.symm⟩
  intro w w' hw hw'
  have hsame := rearranged_of_perm h hw hw'
  exact ⟨hsame, hsame.severity_eq, hsame.perm_violations,
    hsame.exists_order_iff (distinct_of_ofDefinitions hw)⟩

/-- The blocks of a release the other way round: every action gets another number. -/
theorem ofDefinitions_of_perm_release :
    let ds := Plan.releaseDefinitions
    ds.Perm ds.reverse ∧ ofDefinitions ds = .ok Plan.releaseWorkflow ∧
    ((∃ w, ofDefinitions ds = .ok w) ↔ ∃ w', ofDefinitions ds.reverse = .ok w') ∧
    ∀ w w', ofDefinitions ds = .ok w → ofDefinitions ds.reverse = .ok w' →
      Rearranged w w' ∧
      (Policy.review w').severity = (Policy.review w).severity ∧
      (Policy.review w').violations.Perm (Policy.review w).violations ∧
      ((∃ ids, w.order = .ok ids) ↔ ∃ ids, w'.order = .ok ids) := by
  intro ds
  have hperm : ds.Perm ds.reverse := ds.reverse_perm.symm
  exact ⟨hperm, by cbv, ofDefinitions_of_perm hperm⟩

end Workflow

end ContainerFlow
