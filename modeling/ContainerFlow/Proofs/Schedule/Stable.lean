/-
ContainerFlow.Proofs.Schedule.Stable — changes to a workflow that leave
the order of its actions as it is.

* `Workflow.order_addNeed` — one more need behind those of an action
  changes nothing, if the action needs it already through others;
* `Workflow.order_push` — one more action at the end of the file, which
  no action needs, runs last, and the others run as before.

Both compare two visits of the recursive search.  `Graph.Pads` is what
the two graphs have in common: at every node of the first, the second
has the same needs and perhaps, behind them, some that the node has
already.  When the search comes to these, all that the node needs is
finished, and so are they (`visit_of_pads`).  The cycles that are
reported are told by name, so the two workflows need to have the same
names as well (`order_of_recursiveOrder_map`).
-/
import Mathlib
import ContainerFlow.Proofs.Schedule.Order

namespace ContainerFlow

open Relation (TransGen ReflTransGen)

namespace Graph

variable {g g' : Graph} {path nodes finished : List Nat} {node : Nat}

/-! ## Visits in parts -/

/-- To visit nodes and then others is to visit all of them. -/
theorem visit_append (path nodes more finished : List Nat) :
    g.visit path (nodes ++ more) finished =
      (g.visit path nodes finished).bind (g.visit path more) := by
  induction nodes generalizing finished with
  | nil =>
    rw [visit]
    rfl
  | cons node rest ih =>
    rw [List.cons_append, visit, visit]
    by_cases hmem : node ∈ finished
    · rw [if_pos hmem, if_pos hmem]
      exact ih finished
    · rw [if_neg hmem, if_neg hmem]
      by_cases hpath : node ∈ path
      · rw [if_pos hpath, if_pos hpath]
        rfl
      · rw [if_neg hpath, if_neg hpath]
        cases g.visit (path ++ [node]) (g.needsOf node) finished with
        | ok later => exact ih _
        | error loop => rfl

/-- Nodes that are finished are passed over. -/
theorem visit_of_subset (h : nodes ⊆ finished) : g.visit path nodes finished = .ok finished := by
  induction nodes with
  | nil => rw [visit]
  | cons node rest ih =>
    obtain ⟨hnode, hrest⟩ := List.cons_subset.mp h
    rw [visit, if_pos hnode]
    exact ih hrest

/-- A new node whose needs are finished is finished at once. -/
theorem visit_singleton (hnew : node ∉ finished) (hpath : node ∉ path)
    (hneeds : g.needsOf node ⊆ finished) :
    g.visit path [node] finished = .ok (finished ++ [node]) := by
  rw [visit, if_neg hnew, if_neg hpath]
  simp only [visit_of_subset hneeds]
  rw [visit]

/-! ## Needs that are there already -/

/-- The second graph has the needs of the first and, behind those of a node, perhaps others which
the node has in the first graph already, be it through others. -/
def Pads (g g' : Graph) : Prop :=
  ∀ node < g.size, ∃ extra, g'.needsOf node = g.needsOf node ++ extra ∧
    ∀ need ∈ extra, TransGen g.Needs node need

/-- With the needs of a node, an order has all that the node needs through them. -/
theorem Ordered.mem_of_transGen (h : g.Ordered nodes) (hneeds : g.needsOf node ⊆ nodes) {a : Nat}
    (ha : TransGen g.Needs node a) : a ∈ nodes := by
  induction ha with
  | single hneed => exact hneeds hneed
  | tail _ hneed ih => exact h.mem_of_needs ih hneed

/-- The recursive search does not notice needs that are there already. -/
theorem visit_of_pads (hin : g.InRange) (hpads : g.Pads g') (hnodes : ∀ node ∈ nodes, node < g.size)
    (hf : g.Ordered finished) : g'.visit path nodes finished = g.visit path nodes finished := by
  fun_induction visit g path nodes finished with
  | case1 => rw [visit]
  | case2 path node rest finished hmem ih =>
    rw [visit, if_pos hmem]
    exact ih (List.forall_mem_cons.mp hnodes).2 hf
  | case3 path node rest finished hmem hpath => rw [visit, if_neg hmem, if_pos hpath]
  | case4 path node rest finished hmem hpath later hvisit ihneeds ihrest =>
    obtain ⟨hsize, hrest⟩ := List.forall_mem_cons.mp hnodes
    obtain ⟨extra, heq, hextra⟩ := hpads node hsize
    have hvisited := visited_of_visit hvisit hf
    have hnew : node ∉ later := fun hl => hmem (hvisited.frame node (by simp) hl)
    -- What the node needs is finished by now, and so is everything beyond it.
    have hpassed : extra ⊆ later := fun need hneed =>
      hvisited.ordered.mem_of_transGen hvisited.complete (hextra need hneed)
    rw [visit, if_neg hmem, if_neg hpath, heq, visit_append, ihneeds (hin node) hf, hvisit]
    simp only [Except.bind, visit_of_subset hpassed]
    exact ihrest hrest (.snoc hvisited.ordered hnew hvisited.complete)
  | case5 path node rest finished hmem hpath loop hvisit ih =>
    obtain ⟨extra, heq, -⟩ := hpads node (hnodes node List.mem_cons_self)
    rw [visit, if_neg hmem, if_neg hpath, heq, visit_append, ih (hin node) hf, hvisit]
    rfl

/-- In particular, the nodes of the first graph are visited in the same way. -/
theorem visit_range_of_pads (hin : g.InRange) (hpads : g.Pads g') :
    g'.visit [] (List.range g.size) [] = g.recursiveOrder :=
  visit_of_pads hin hpads (fun _ hnode => List.mem_range.mp hnode) .nil

end Graph

namespace Workflow

variable {w w' : Workflow} {a : Action}

/-! ## From visits to orders -/

theorem namesOf_congr {ids : List Nat}
    (h : ∀ id ∈ ids, w'.actions[id]?.map (·.name) = w.actions[id]?.map (·.name)) :
    w'.namesOf ids = w.namesOf ids := by
  induction ids with
  | nil => rfl
  | cons id rest ih =>
    obtain ⟨hid, hrest⟩ := List.forall_mem_cons.mp h
    cases hact : w.actions[id]? with
    | none =>
      have hnone : w'.actions[id]? = none := by simpa [hact] using hid
      simp only [namesOf, action, hact, hnone]
      rfl
    | some act =>
      rw [hact, Option.map_some, Option.map_eq_some_iff] at hid
      obtain ⟨act', hact', hname⟩ := hid
      rw [namesOf_cons hact, namesOf_cons hact', hname, ih hrest]

/-- Workflows whose searches answer alike are ordered alike, and if there is a cycle they report
the same one, when their actions have the same names. -/
theorem order_of_recursiveOrder_map (h : w.NeedsInRange) (h' : w'.NeedsInRange)
    {f : List Nat → List Nat}
    (hsearch : w'.graph.recursiveOrder = w.graph.recursiveOrder.map f)
    (hnames : ∀ id < w.size, w'.actions[id]?.map (·.name) = w.actions[id]?.map (·.name)) :
    w'.order = w.order.map f := by
  cases hr : w.graph.recursiveOrder with
  | ok ids =>
    rw [hr] at hsearch
    rw [order_of_recursiveOrder_ok h hr, order_of_recursiveOrder_ok h' hsearch]
    rfl
  | error loop =>
    rw [hr] at hsearch
    obtain ⟨first, rest, -, -, rfl, hcycle, -⟩ := order_of_recursiveOrder_error h hr
    have hsame : w'.namesOf (first :: rest) = w.namesOf (first :: rest) :=
      namesOf_congr fun id hid => hnames id (hcycle.lt_size id hid)
    rw [order, order, Graph.order_eq_recursiveOrder h.graph, Graph.order_eq_recursiveOrder h'.graph,
      hr, hsearch]
    simp only [Except.map, cycleFault, hsame]

/-! ## One more need -/

/-- The workflow in which the action with the number `id` has one more need, behind the others. -/
def addNeed (w : Workflow) (id need : Nat) : Workflow :=
  { w with actions := w.actions.modify id fun a => { a with needs := a.needs ++ [need] } }

variable {id need : Nat}

theorem size_addNeed (w : Workflow) (id need : Nat) : (w.addNeed id need).size = w.size :=
  List.length_modify ..

theorem getElem?_addNeed (w : Workflow) (id need i : Nat) :
    (w.addNeed id need).actions[i]? = w.actions[i]?.map fun a =>
      { a with needs := if i = id then a.needs ++ [need] else a.needs } := by
  rw [addNeed, List.getElem?_modify]
  by_cases hi : i = id
  · subst hi
    simp
  · simp [hi, Ne.symm hi]

theorem lt_size_of_transGen (h : w.NeedsInRange) (hneed : TransGen w.Needs id need) :
    need < w.size := by
  obtain ⟨last, -, act, hact, hmem⟩ := TransGen.tail'_iff.mp hneed
  exact h act (List.mem_of_getElem? hact) need hmem

theorem NeedsInRange.addNeed (h : w.NeedsInRange) (hneed : need < w.size) :
    (w.addNeed id need).NeedsInRange := by
  intro a ha need' hneed'
  obtain ⟨i, hi⟩ := List.mem_iff_getElem?.mp ha
  rw [getElem?_addNeed, Option.map_eq_some_iff] at hi
  obtain ⟨act, hact, rfl⟩ := hi
  rw [size_addNeed]
  have hin := h act (List.mem_of_getElem? hact)
  split at hneed'
  · rcases List.mem_append.mp hneed' with hmem | hmem
    · exact hin need' hmem
    · exact List.mem_singleton.mp hmem ▸ hneed
  · exact hin need' hneed'

theorem pads_addNeed (hneed : TransGen w.Needs id need) :
    w.graph.Pads (w.addNeed id need).graph := by
  intro i hi
  rw [size_graph] at hi
  have hact : w.actions[i]? = some w.actions[i] := List.getElem?_eq_getElem hi
  have hact' := getElem?_addNeed w id need i
  rw [hact, Option.map_some] at hact'
  rw [needsOf_graph hact, needsOf_graph hact', needs_graph]
  by_cases hid : i = id
  · subst hid
    exact ⟨[need], by simp, by simpa using hneed⟩
  · exact ⟨[], by simp [hid], by simp⟩

/-! ## One more action -/

/-- The workflow with one more action at the end. -/
def push (w : Workflow) (a : Action) : Workflow := { w with actions := w.actions ++ [a] }

theorem size_push (w : Workflow) (a : Action) : (w.push a).size = w.size + 1 := by
  simp [push, size]

theorem getElem?_push_of_lt {i : Nat} (h : i < w.size) (a : Action) :
    (w.push a).actions[i]? = w.actions[i]? :=
  List.getElem?_append_left h

theorem getElem?_push_size (w : Workflow) (a : Action) :
    (w.push a).actions[w.size]? = some a := by
  simp [push, size]

theorem NeedsInRange.push (h : w.NeedsInRange) (ha : ∀ id ∈ a.needs, id < w.size) :
    (w.push a).NeedsInRange := by
  intro act hact id hid
  rw [size_push]
  rcases List.mem_append.mp hact with hact | hact
  · exact Nat.lt_succ_of_lt (h act hact id hid)
  · exact Nat.lt_succ_of_lt (ha id (List.mem_singleton.mp hact ▸ hid))

theorem pads_push (w : Workflow) (a : Action) : w.graph.Pads (w.push a).graph := by
  intro i hi
  rw [size_graph] at hi
  have hact : w.actions[i]? = some w.actions[i] := List.getElem?_eq_getElem hi
  have hact' := (getElem?_push_of_lt hi a).trans hact
  exact ⟨[], by rw [needsOf_graph hact, needsOf_graph hact', List.append_nil], by simp⟩

/-- The search of the longer workflow visits its last action when all others are finished. -/
theorem recursiveOrder_push (h : w.NeedsInRange) (ha : ∀ id ∈ a.needs, id < w.size) :
    (w.push a).graph.recursiveOrder = w.graph.recursiveOrder.map (· ++ [w.size]) := by
  have hbefore := Graph.visit_range_of_pads h.graph (pads_push w a)
  rw [size_graph] at hbefore
  rw [Graph.recursiveOrder, size_graph, size_push, List.range_succ, Graph.visit_append, hbefore]
  cases hr : w.graph.recursiveOrder with
  | error loop => rfl
  | ok ids =>
    obtain ⟨-, hall⟩ := Graph.ordered_of_recursiveOrder h.graph hr
    rw [size_graph] at hall
    refine Graph.visit_singleton (fun hmem => ?_) List.not_mem_nil fun need hneed => ?_
    · exact ((hall w.size).mp hmem).false
    · rw [needsOf_graph (getElem?_push_size w a)] at hneed
      exact (hall need).mpr (ha need hneed)

/-! ## Main results -/

/-- **Redundant needs change nothing**: an action may be given once more, behind its other needs,
an action that it needs already, directly or through others, and the order remains what it is, or
the cycle that is reported in place of one. -/
theorem order_addNeed (w : Workflow) (h : w.NeedsInRange) (hneed : TransGen w.Needs id need) :
    (w.addNeed id need).order = w.order := by
  have hpads := pads_addNeed hneed
  have hsearch := Graph.visit_range_of_pads h.graph hpads
  rw [size_graph, ← size_addNeed w id need, ← size_graph] at hsearch
  have hsame : (w.addNeed id need).order = w.order.map fun ids => ids := by
    refine order_of_recursiveOrder_map h (h.addNeed (lt_size_of_transGen h hneed)) ?_ fun i _ => ?_
    · exact hsearch.trans (congrFun Except.map_id _).symm
    · rw [getElem?_addNeed, Option.map_map]
      rfl
  exact hsame.trans (congrFun Except.map_id _)

/-- A need through another in a workflow with an order, and one in a workflow without. -/
theorem order_addNeed_transitive :
    let w := ofNeeds [("ship", [1]), ("test", [2]), ("make", [])]
    let v := ofNeeds [("ship", [1]), ("test", [2]), ("make", [1])]
    w.NeedsInRange ∧ TransGen w.Needs 0 2 ∧ (w.addNeed 0 2).order = w.order ∧
    v.NeedsInRange ∧ TransGen v.Needs 0 2 ∧ (v.addNeed 0 2).order = v.order := by
  intro w v
  have hneed : TransGen w.Needs 0 2 :=
    .tail (.single ⟨_, rfl, List.mem_cons_self⟩) ⟨_, rfl, List.mem_cons_self⟩
  have hneed' : TransGen v.Needs 0 2 :=
    .tail (.single ⟨_, rfl, List.mem_cons_self⟩) ⟨_, rfl, List.mem_cons_self⟩
  have hin : w.NeedsInRange := by decide
  have hin' : v.NeedsInRange := by decide
  exact ⟨hin, hneed, order_addNeed w hin hneed, hin', hneed', order_addNeed v hin' hneed'⟩

/-- **A further action leaves the others alone**: put at the end of the file, with needs among the
others, it runs behind all of them, and they run in the order in which they ran without it; if there
is none, the cycle that is reported is the same. -/
theorem order_push (w : Workflow) (h : w.NeedsInRange) (ha : ∀ id ∈ a.needs, id < w.size) :
    (w.push a).order = w.order.map (· ++ [w.size]) := by
  refine order_of_recursiveOrder_map h (h.push ha) (recursiveOrder_push h ha) fun i hi => ?_
  rw [getElem?_push_of_lt hi]

/-- A last action with a repeated need, behind actions with an order and behind a cycle. -/
theorem order_push_repeated :
    let w := ofNeeds [("ship", [1]), ("make", [])]
    let v := ofNeeds [("ship", [1]), ("make", [0])]
    let a : Action := ⟨"clean", "docker://alpine", none, none, [0, 1, 0], .empty, []⟩
    (w.NeedsInRange ∧ (∀ id ∈ a.needs, id < w.size) ∧
      (w.push a).order = w.order.map (· ++ [w.size])) ∧
    v.NeedsInRange ∧ (∀ id ∈ a.needs, id < v.size) ∧
      (v.push a).order = v.order.map (· ++ [v.size]) := by
  intro w v a
  exact ⟨⟨by decide, by decide, order_push w (by decide) (by decide)⟩,
    by decide, by decide, order_push v (by decide) (by decide)⟩

end Workflow

end ContainerFlow
