/-
ContainerFlow.Proofs.Schedule.Sorted — files whose actions stand in the
order in which they run.

* `order_of_sorted` — a file in which every action stands behind the
  actions that it needs is never reordered: its actions run from the
  first to the last.  When the search comes to an action, all that the
  action needs is finished, so it is finished at once
  (`Graph.visit_range`);
* `sorted_of_rewrites` — the actions of a file, written in the order in
  which they run, stand so.

Writing the actions in their order numbers them anew, so the two
workflows have no numbers in common; that it is the same order is told
by names.  The main statement is `order_of_rewritten`.
-/
import Mathlib
import ContainerFlow.Proofs.Rearrange
import ContainerFlow.Proofs.Schedule.Stable

namespace ContainerFlow

/-! ## The search goes straight through -/

/-- A search that meets no node before what the node needs finishes the nodes as it meets them. -/
theorem Graph.visit_range {g : Graph} (h : ∀ a b, g.Needs a b → b < a) (n : Nat) :
    g.visit [] (List.range n) [] = .ok (List.range n) := by
  induction n with
  | zero => rw [List.range_zero, visit]
  | succ n ih =>
    rw [List.range_succ, visit_append, ih]
    refine visit_singleton List.not_mem_range_self List.not_mem_nil fun need hneed => ?_
    exact List.mem_range.mpr (h n need hneed)

/-- Actions that need none behind them run in the order of their numbers. -/
theorem Workflow.order_eq_range {w : Workflow} (h : ∀ a b, w.Needs a b → b < a) :
    w.order = .ok (List.range w.size) := by
  have hin : w.NeedsInRange := by
    intro a ha need hneed
    obtain ⟨id, hid⟩ := List.mem_iff_getElem?.mp ha
    have hneeds : w.Needs id need := ⟨a, hid, hneed⟩
    exact (h id need hneeds).trans (lt_size_of_needs hneeds)
  refine order_of_recursiveOrder_ok hin ?_
  rw [Graph.recursiveOrder, Graph.visit_range (w.needs_graph ▸ h), size_graph]

/-! ## Files in order -/

namespace Definition

/-- Every action stands behind the actions that it needs. -/
def Sorted (ds : List Definition) : Prop :=
  ∀ before a after, actions ds = before ++ a :: after →
    ∀ name ∈ a.needs, name ∈ before.map (·.name)

/-- The definitions `es` have the actions of `ds`, written in the order that `ids` tells of their
numbers, and somewhere among them the workflow. -/
structure Rewrites (es ds : List Definition) (ids : List Nat) : Prop where
  actions : List.Forall₂ (fun id a => (Definition.actions ds)[id]? = some a) ids
    (Definition.actions es)
  workflows : workflows es = workflows ds

variable {ds es : List Definition} {ids : List Nat}

/-- Definitions are their workflows and their actions, in some order. -/
theorem perm_by_kind (ds : List Definition) :
    ds.Perm ((workflows ds).map .workflow ++ (actions ds).map .action) := by
  induction ds with
  | nil => exact .nil
  | cons d rest ih =>
    cases d with
    | workflow d => exact ih.cons _
    | action d => exact (ih.cons _).trans List.perm_middle.symm

/-- Actions taken by all of their numbers are the same actions, in some order. -/
theorem perm_actions_of_forall₂ {as bs : List ActionDefinition}
    (hids : ids.Perm (List.range as.length))
    (h : List.Forall₂ (fun id a => as[id]? = some a) ids bs) : bs.Perm as := by
  have hall : List.Forall₂ (fun id a => as[id]? = some a) (List.range as.length) as := by
    rw [List.forall₂_iff_get]
    simp
  obtain ⟨cs, hcs, hperm⟩ := List.perm_comp_forall₂ hids hall
  have hsame : List.Forall₂ Eq bs cs :=
    forall₂_join (fun _ _ _ hb hc => Option.some.inj (hb.symm.trans hc)) h hcs
  rw [List.forall₂_eq_eq_eq] at hsame
  exact hsame ▸ hperm

theorem Rewrites.perm (h : Rewrites es ds ids)
    (hids : ids.Perm (List.range (Definition.actions ds).length)) : es.Perm ds := by
  have hactions := perm_actions_of_forall₂ hids h.actions
  refine (perm_by_kind es).trans (List.Perm.trans ?_ (perm_by_kind ds).symm)
  rw [h.workflows]
  exact (hactions.map _).append_left _

end Definition

namespace Workflow

open Definition (Sorted Rewrites)

variable {ds es : List Definition} {w w' : Workflow} {ids : List Nat}

/-! ## From definitions to numbers -/

theorem getElem?_of_ofDefinitions (hw : ofDefinitions ds = .ok w) {id : Nat} {a : Action}
    (ha : w.actions[id]? = some a) :
    ∃ d, (Definition.actions ds)[id]? = some d ∧
      List.Forall₂ (fun need name => w.Named need name) a.needs d.needs := by
  obtain ⟨t, -, -, hnames, hactions, -⟩ := resolved_of_ofDefinitions hw
  obtain ⟨d, hd, hda⟩ := exists_getElem?_of_forall₂ hactions.flip ha
  exact ⟨d, hd, namesOf_eq_ok_iff.mp
    (namesOf_of_resolve hnames hactions (ActionDefinition.needs_of_resolve hda))⟩

theorem named_iff_of_ofDefinitions (hw : ofDefinitions ds = .ok w) {id : Nat} {name : String} :
    w.Named id name ↔ ((Definition.actions ds).map (·.name))[id]? = some name := by
  obtain ⟨t, -, -, -, hactions, -⟩ := resolved_of_ofDefinitions hw
  rw [← map_name_of_resolve hactions, List.getElem?_map, Option.map_eq_some_iff]
  rfl

/-- A name stands for one number only. -/
theorem eq_of_named (hw : ofDefinitions ds = .ok w) {i j : Nat} {name : String}
    (hi : w.Named i name) (hj : w.Named j name) : i = j := by
  obtain ⟨a, ha, rfl⟩ := hi
  obtain ⟨b, hb, hname⟩ := hj
  have hdistinct := distinct_of_ofDefinitions hw
  rw [← numberOf_of_getElem? hdistinct ha, ← numberOf_of_getElem? hdistinct hb, hname]

theorem IsOrder.perm_range (h : w.IsOrder ids) : ids.Perm (List.range w.size) := by
  rw [List.perm_ext_iff_of_nodup h.distinct List.nodup_range]
  simpa using h.complete

/-! ## Orders of files in order -/

/-- Actions that stand behind all that they need run as they stand. -/
theorem order_of_sorted (hw : ofDefinitions ds = .ok w) (h : Sorted ds) :
    w.order = .ok (List.range w.size) := by
  refine order_eq_range fun id need hneed => ?_
  obtain ⟨a, ha, hmem⟩ := hneed
  obtain ⟨d, hd, hneeds⟩ := getElem?_of_ofDefinitions hw ha
  obtain ⟨name, hname, hnamed⟩ := exists_of_mem_right hneeds.flip hmem
  obtain ⟨hid, rfl⟩ := List.getElem?_eq_some_iff.mp hd
  have hsplit : Definition.actions ds = (Definition.actions ds).take id ++
      (Definition.actions ds)[id] :: (Definition.actions ds).drop (id + 1) := by
    rw [List.getElem_cons_drop, List.take_append_drop]
  -- The name is that of an action in front, and no action behind bears it.
  obtain ⟨i, hi⟩ := List.mem_iff_getElem?.mp (h _ _ _ hsplit name hname)
  rw [List.map_take, List.getElem?_take, Option.ite_none_right_eq_some] at hi
  exact eq_of_named hw ((named_iff_of_ofDefinitions hw).mpr hi.2) hnamed ▸ hi.1

/-- The actions of a file, written in the order in which they run, stand behind what they need. -/
theorem sorted_of_rewrites (hw : ofDefinitions ds = .ok w) (hids : w.order = .ok ids)
    (h : Rewrites es ds ids) : Sorted es := by
  intro before d after hsplit name hname
  have hactions := h.actions
  rw [hsplit] at hactions
  obtain ⟨front, id, back, rfl, hfront, hid⟩ := exists_split_of_forall₂ hactions
  have horder := isOrder_of_order (inRange_of_ofDefinitions hw).2 hids
  have hact : id < w.actions.length := by
    have hlt := (List.getElem?_eq_some_iff.mp hid).1
    rwa [← size_of_ofDefinitions hw] at hlt
  obtain ⟨d', hd', hneeds⟩ := getElem?_of_ofDefinitions hw (List.getElem?_eq_getElem hact)
  cases hid.symm.trans hd'
  -- What the action needs runs before it, so it stands in front.
  obtain ⟨need, hneed, hnamed⟩ := exists_of_mem_right hneeds hname
  have hmem : need ∈ front :=
    horder.mem_of_transGen (.single ⟨_, List.getElem?_eq_getElem hact, hneed⟩)
  obtain ⟨b, hb, hget⟩ := exists_of_mem_right hfront.flip hmem
  rw [named_iff_of_ofDefinitions hw, List.getElem?_map, hget] at hnamed
  exact List.mem_map.mpr ⟨b, hb, Option.some.inj hnamed⟩

/-- Both workflows have the same names in the order in which the second file is written. -/
theorem sameNames_of_rewrites (hw : ofDefinitions ds = .ok w) (hw' : ofDefinitions es = .ok w')
    (h : Rewrites es ds ids) : SameNames w w' ids (List.range w'.size) := by
  refine ⟨(Definition.actions es).map (·.name), namesOf_eq_ok_iff.mpr ?_,
    namesOf_eq_ok_iff.mpr ?_⟩
  · rw [List.forall₂_map_right_iff]
    refine h.actions.imp fun id a ha => ?_
    rw [named_iff_of_ofDefinitions hw, List.getElem?_map, ha]
    rfl
  · rw [size_of_ofDefinitions hw', List.forall₂_iff_get]
    refine ⟨by simp, fun i hi hi' => ?_⟩
    rw [named_iff_of_ofDefinitions hw']
    simpa using List.getElem?_eq_getElem hi'

/-! ## Main result -/

/-- **Writing a file in the order of its plan settles the order**: the same definitions with the
actions in the order in which they run make up a workflow whose actions run as they stand, in the
order, told by names, in which they ran before.  And a file in which every action stands behind the
actions that it needs is never reordered. -/
theorem order_of_rewritten (hw : ofDefinitions ds = .ok w) (hids : w.order = .ok ids)
    (h : Rewrites es ds ids) :
    (∃ w', ofDefinitions es = .ok w' ∧ w'.size = w.size ∧ w'.order = .ok (List.range w'.size) ∧
      SameNames w w' ids (List.range w'.size)) ∧
    ∀ fs v, ofDefinitions fs = .ok v → Sorted fs → v.order = .ok (List.range v.size) := by
  refine ⟨?_, fun fs v hv hsorted => order_of_sorted hv hsorted⟩
  have hperm : es.Perm ds := by
    refine h.perm ?_
    rw [← size_of_ofDefinitions hw]
    exact (isOrder_of_order (inRange_of_ofDefinitions hw).2 hids).perm_range
  obtain ⟨w', hw'⟩ := exists_ofDefinitions_iff.mpr
    ((exists_ofDefinitions_iff.mp ⟨w, hw⟩).of_perm hperm.symm)
  refine ⟨w', hw', ?_, order_of_sorted hw' (sorted_of_rewrites hw hids h),
    sameNames_of_rewrites hw hw' h⟩
  rw [size_of_ofDefinitions hw, size_of_ofDefinitions hw',
    (Definition.perm_actions hperm).length_eq]

/-- A release with its actions in the order in which they run, the workflow between them. -/
theorem order_of_rewritten_release :
    let ds := Plan.releaseDefinitions
    let es := [ds[1], ds[3], ds[2], ds[0]]
    ofDefinitions ds = .ok Plan.releaseWorkflow ∧ Plan.releaseWorkflow.order = .ok [1, 2, 0] ∧
    Rewrites es ds [1, 2, 0] ∧
    (∃ w', ofDefinitions es = .ok w' ∧ w'.size = Plan.releaseWorkflow.size ∧
      w'.order = .ok (List.range w'.size) ∧
      SameNames Plan.releaseWorkflow w' [1, 2, 0] (List.range w'.size)) ∧
    ∀ fs v, ofDefinitions fs = .ok v → Sorted fs → v.order = .ok (List.range v.size) := by
  intro ds es
  have hw : ofDefinitions ds = .ok Plan.releaseWorkflow := by cbv
  have hids : Plan.releaseWorkflow.order = .ok [1, 2, 0] := by cbv
  have hes : Rewrites es ds [1, 2, 0] := ⟨.cons rfl (.cons rfl (.cons rfl .nil)), rfl⟩
  exact ⟨hw, hids, hes, order_of_rewritten hw hids hes⟩

end Workflow

end ContainerFlow
