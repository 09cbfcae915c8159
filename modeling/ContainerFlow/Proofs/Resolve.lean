/-
ContainerFlow.Proofs.Resolve — what numbers stand for what names after
the definitions of a file have been resolved.

* `resolved_of_ofDefinitions` — a workflow that comes of definitions has their
  actions, resolved one by one in the order of the file, and the head of
  the one workflow definition.
* `inRange_of_ofDefinitions` — all its references are to actions that it
  has: every number comes from the table of names, and there are as many
  actions as names.
-/
import Mathlib.Data.List.Forall2
import Mathlib.Data.List.Nodup
import ContainerFlow.Proofs.Except
import ContainerFlow.Proofs.NameTable
import ContainerFlow.Workflow.Resolve

namespace ContainerFlow

/-- What is on the right of a list of pairs has a partner on the left. -/
theorem exists_of_mem_right {α β : Type} {R : α → β → Prop} {as : List α} {bs : List β}
    (h : List.Forall₂ R as bs) {b : β} (hb : b ∈ bs) : ∃ a ∈ as, R a b := by
  induction h with
  | nil => cases hb
  | @cons a c _ _ hac _ ih =>
    rcases List.mem_cons.mp hb with rfl | hb
    · exact ⟨a, List.mem_cons_self, hac⟩
    · obtain ⟨a', ha', hab⟩ := ih hb
      exact ⟨a', List.mem_cons_of_mem _ ha', hab⟩

/-- What is at a place on the left has a partner at that place on the right. -/
theorem exists_getElem?_of_forall₂ {α β : Type} {R : α → β → Prop} {as : List α} {bs : List β}
    (h : List.Forall₂ R as bs) {i : Nat} {a : α} (ha : as[i]? = some a) :
    ∃ b, bs[i]? = some b ∧ R a b := by
  obtain ⟨hi, rfl⟩ := List.getElem?_eq_some_iff.mp ha
  have hi' : i < bs.length := h.length_eq ▸ hi
  exact ⟨bs[i], List.getElem?_eq_getElem hi', h.get hi hi'⟩

/-- Partners that have something in common have it in common all along their lists. -/
theorem map_eq_map_of_forall₂ {α β γ : Type} {R : α → β → Prop} {f : α → γ} {g : β → γ}
    (common : ∀ a b, R a b → f a = g b) {as : List α} {bs : List β} (h : List.Forall₂ R as bs) :
    as.map f = bs.map g := by
  rw [← List.forall₂_eq_eq_eq, List.forall₂_map_left_iff, List.forall₂_map_right_iff]
  exact h.imp common

/-- Partners of the same things are partners of each other. -/
theorem forall₂_join {α β γ : Type} {R : α → β → Prop} {S : α → γ → Prop} {T : β → γ → Prop}
    (join : ∀ a b c, R a b → S a c → T b c) {as : List α} {bs : List β} {cs : List γ}
    (hbs : List.Forall₂ R as bs) (hcs : List.Forall₂ S as cs) : List.Forall₂ T bs cs := by
  induction hbs generalizing cs with
  | nil =>
    cases hcs
    exact .nil
  | cons hab _ ih =>
    cases hcs with
    | cons hac hrest => exact .cons (join _ _ _ hab hac) (ih hrest)

/-- What stands between others on the right has a partner that stands between theirs. -/
theorem exists_split_of_forall₂ {α β : Type} {R : α → β → Prop} {as : List α}
    {before after : List β} {b : β} (h : List.Forall₂ R as (before ++ b :: after)) :
    ∃ as₁ a as₂, as = as₁ ++ a :: as₂ ∧ List.Forall₂ R as₁ before ∧ R a b := by
  induction before generalizing as with
  | nil =>
    obtain ⟨a, as₂, ha, -, rfl⟩ := List.forall₂_cons_right_iff.mp h
    exact ⟨[], a, as₂, rfl, .nil, ha⟩
  | cons c before ih =>
    obtain ⟨a', rest, ha', hrest, rfl⟩ := List.forall₂_cons_right_iff.mp h
    obtain ⟨as₁, a, as₂, rfl, hbefore, hab⟩ := ih hrest
    exact ⟨a' :: as₁, a, as₂, rfl, .cons ha' hbefore, hab⟩

/-! ## The definitions of a file by kind -/

namespace Definition

/-- The action that a definition is of. -/
def action? : Definition → Option ActionDefinition
  | .action d => some d
  | .workflow _ => none

/-- The workflow that a definition is of. -/
def workflow? : Definition → Option WorkflowDefinition
  | .action _ => none
  | .workflow d => some d

/-- The definitions of actions, in order. -/
def actions (ds : List Definition) : List ActionDefinition := ds.filterMap action?

/-- The definitions of workflows, in order. -/
def workflows (ds : List Definition) : List WorkflowDefinition := ds.filterMap workflow?

@[simp] theorem actions_nil : actions [] = [] := rfl

@[simp] theorem actions_cons_action (d : ActionDefinition) (ds : List Definition) :
    actions (.action d :: ds) = d :: actions ds := rfl

@[simp] theorem actions_cons_workflow (d : WorkflowDefinition) (ds : List Definition) :
    actions (.workflow d :: ds) = actions ds := rfl

@[simp] theorem workflows_nil : workflows [] = [] := rfl

@[simp] theorem workflows_cons_action (d : ActionDefinition) (ds : List Definition) :
    workflows (.action d :: ds) = workflows ds := rfl

@[simp] theorem workflows_cons_workflow (d : WorkflowDefinition) (ds : List Definition) :
    workflows (.workflow d :: ds) = d :: workflows ds := rfl

end Definition

/-! ## The table of names -/

namespace NameTable

/-- Feeding the actions of definitions adds their names, in order. -/
theorem names_of_feedActions {table t : NameTable} {ds : List Definition}
    (h : table.feedActions ds = .ok t) :
    t.names = table.names ++ (Definition.actions ds).map (·.name) := by
  fun_induction feedActions table ds with
  | case1 table =>
    cases h
    simp
  | case2 table d rest ih => simpa using ih h
  | case3 table d rest fed hin ih =>
    rw [ih h, names_feed, if_neg ((inserted_feed_iff _ _).mp hin)]
    simp
  | case4 => cases h

theorem names_of_ofDefinitions {ds : List Definition} {t : NameTable}
    (h : ofDefinitions ds = .ok t) : t.names = (Definition.actions ds).map (·.name) := by
  rw [names_of_feedActions h]
  rfl

/-- The numbers that names resolve to are theirs in the table, one by one. -/
theorem resolve_eq_ok_iff {t : NameTable} {referrer : String} {position : Position}
    {names : List String} {ids : List Nat} :
    t.resolve referrer position names = .ok ids ↔
      List.Forall₂ (fun name id => t.get? name = some id) names ids := by
  induction names generalizing ids with
  | nil =>
    rw [resolve, List.forall₂_nil_left_iff, Except.ok.injEq]
    exact eq_comm
  | cons name rest ih =>
    rw [resolve, List.forall₂_cons_left_iff]
    cases hname : t.get? name with
    | none => simp
    | some id =>
      simp only [bind_eq_ok_iff, ih]
      simp [pure, Except.pure, eq_comm]

end NameTable

/-! ## Resolved definitions -/

theorem Trigger.name_of_ofName? {name : String} {trigger : Trigger}
    (h : ofName? name = some trigger) : trigger.name = name := by
  unfold ofName? at h
  split at h
  · next hname =>
    cases h
    exact hname.symm
  · cases h

/-- Resolving definitions resolves the actions among them and the workflows among them, each one by
one, and lets no second workflow through. -/
theorem forall₂_of_resolveFrom {t : NameTable} {head? out? : Option Workflow.Head}
    {ds : List Definition} {actions : List Action}
    (h : resolveFrom t head? ds = .ok (out?, actions)) :
    List.Forall₂ (fun d a => d.resolve t = .ok a) (Definition.actions ds) actions ∧
      ∃ heads, List.Forall₂ (fun d head => d.resolve t = .ok head) (Definition.workflows ds) heads ∧
        out?.toList = head?.toList ++ heads := by
  fun_induction resolveFrom t head? ds generalizing actions with
  | case1 head? =>
    cases h
    exact ⟨.nil, [], .nil, by simp⟩
  | case2 => cases h
  | case3 head? d rest hhead ih =>
    obtain ⟨head, hd, hrest⟩ := bind_eq_ok_iff.mp h
    obtain ⟨hactions, heads, hheads, hout⟩ := ih head hrest
    have hnone : head? = none := by simpa using hhead
    exact ⟨hactions, head :: heads, .cons hd hheads, by simpa [hnone] using hout⟩
  | case4 head? d rest ih =>
    obtain ⟨action, hd, hrest⟩ := bind_eq_ok_iff.mp h
    obtain ⟨⟨_, later⟩, hlater, heq⟩ := bind_eq_ok_iff.mp hrest
    cases heq
    obtain ⟨hactions, hheads⟩ := ih hlater
    exact ⟨.cons hd hactions, hheads⟩

theorem ActionDefinition.needs_of_resolve {t : NameTable} {d : ActionDefinition} {a : Action}
    (h : d.resolve t = .ok a) :
    List.Forall₂ (fun name id => t.get? name = some id) d.needs a.needs := by
  obtain ⟨needs, hneeds, heq⟩ := bind_eq_ok_iff.mp h
  cases heq
  exact NameTable.resolve_eq_ok_iff.mp hneeds

/-- An action is its definition, with numbers for the names that it needs. -/
theorem ActionDefinition.eq_of_resolve {t : NameTable} {d : ActionDefinition} {a : Action}
    (h : d.resolve t = .ok a) :
    a = { name := d.name, uses := d.uses, runs := d.runs, args := d.args, needs := a.needs,
          env := d.env, secrets := d.secrets } := by
  obtain ⟨needs, -, heq⟩ := bind_eq_ok_iff.mp h
  cases heq
  rfl

/-- The head of a workflow is its definition, with numbers for the names that it resolves. -/
theorem WorkflowDefinition.eq_of_resolve {t : NameTable} {d : WorkflowDefinition}
    {head : Workflow.Head} (h : d.resolve t = .ok head) :
    head.name = d.name ∧ head.trigger.name = d.trigger := by
  unfold resolve at h
  split at h
  · next trigger htrigger =>
    obtain ⟨depends, -, heq⟩ := bind_eq_ok_iff.mp h
    cases heq
    exact ⟨rfl, Trigger.name_of_ofName? htrigger⟩
  · cases h

/-- Resolved actions have the names of their definitions. -/
theorem map_name_of_resolve {t : NameTable} {ds : List ActionDefinition} {as : List Action}
    (h : List.Forall₂ (fun d a => d.resolve t = .ok a) ds as) :
    as.map (·.name) = ds.map (·.name) := by
  refine (map_eq_map_of_forall₂ (fun d a hd => ?_) h).symm
  rw [ActionDefinition.eq_of_resolve hd]

theorem WorkflowDefinition.depends_of_resolve {t : NameTable} {d : WorkflowDefinition}
    {head : Workflow.Head} (h : d.resolve t = .ok head) :
    List.Forall₂ (fun name id => t.get? name = some id) d.resolves head.depends := by
  unfold WorkflowDefinition.resolve at h
  split at h
  · obtain ⟨depends, hdepends, heq⟩ := bind_eq_ok_iff.mp h
    cases heq
    exact NameTable.resolve_eq_ok_iff.mp hdepends
  · cases h

/-! ## Workflows of definitions -/

namespace Workflow

/-- Definitions that make up a workflow resolve to its head and its actions, by a table that has
the names of the actions in the order of the file. -/
theorem resolved_of_ofDefinitions {ds : List Definition} {w : Workflow}
    (h : ofDefinitions ds = .ok w) :
    ∃ (t : NameTable) (d : WorkflowDefinition) (head : Head),
      t.names = (Definition.actions ds).map (·.name) ∧
      List.Forall₂ (fun d a => d.resolve t = .ok a) (Definition.actions ds) w.actions ∧
      Definition.workflows ds = [d] ∧ d.resolve t = .ok head ∧
      w = { name := head.name, trigger := head.trigger, depends := head.depends,
            actions := w.actions } := by
  obtain ⟨t, ht, h⟩ := bind_eq_ok_iff.mp h
  obtain ⟨⟨head?, actions⟩, hfrom, h⟩ := bind_eq_ok_iff.mp h
  obtain ⟨hactions, heads, hheads, hout⟩ := forall₂_of_resolveFrom hfrom
  cases head? with
  | none => cases h
  | some head =>
    cases h
    cases (show [head] = heads from hout)
    obtain ⟨d, rest, hd, hrest, hds⟩ := List.forall₂_cons_right_iff.mp hheads
    cases List.forall₂_nil_right_iff.mp hrest
    exact ⟨t, d, head, NameTable.names_of_ofDefinitions ht, hactions, hds, hd, rfl⟩

/-- There are as many actions as definitions of actions. -/
theorem size_of_ofDefinitions {ds : List Definition} {w : Workflow}
    (h : ofDefinitions ds = .ok w) : w.size = (Definition.actions ds).length := by
  obtain ⟨_, -, -, -, hactions, -⟩ := resolved_of_ofDefinitions h
  exact hactions.length_eq.symm

/-- Every reference of a workflow that comes of definitions is to an action that it has. -/
theorem inRange_of_ofDefinitions {ds : List Definition} {w : Workflow}
    (h : ofDefinitions ds = .ok w) : w.InRange := by
  obtain ⟨t, d, head, hnames, hactions, -, hd, hw⟩ := resolved_of_ofDefinitions h
  have hsize : t.size = w.size := by
    rw [NameTable.size, hnames, List.length_map, hactions.length_eq, size]
  have hlt : ∀ {names : List String} {ids : List Nat},
      List.Forall₂ (fun name id => t.get? name = some id) names ids → ∀ id ∈ ids, id < w.size := by
    intro names ids hids id hid
    obtain ⟨name, -, hname⟩ := exists_of_mem_right hids hid
    exact hsize ▸ NameTable.lt_size_of_get? hname
  constructor
  · rw [hw]
    exact hlt (WorkflowDefinition.depends_of_resolve hd)
  · intro a ha
    obtain ⟨d, -, hd⟩ := exists_of_mem_right hactions ha
    exact hlt (ActionDefinition.needs_of_resolve hd)

end Workflow

end ContainerFlow
