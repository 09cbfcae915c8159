/-
ContainerFlow.Proofs.Schedule.Order — the order of the actions of a
workflow, in terms of what the actions say that they need.

The hypothesis throughout is that the needs of the actions are numbers
of actions; every workflow that is read from a file has it.  Three
things are true of all such workflows, whatever their needs look like:

* `exists_order_iff_acyclic` — there is an order exactly when no action
  needs itself, be it through others, and the order has every action
  once, after all that it needs;
* `cycle_of_order_error` — what is reported in place of an order is a
  cycle, and nothing but the cycle;
* `order_eq_recursive` — which order it is, and which cycle, are
  those of the recursive search.

All of them rest on the recursive search: what holds of its answers is
shown in `Proofs.Schedule.Recursion`, and that the scheduler gives the
same answers in `Proofs.Schedule.Simulation`.
-/
import Mathlib
import ContainerFlow.Proofs.Schedule.Simulation

namespace ContainerFlow.Workflow

open Relation (TransGen)

variable {w : Workflow}

/-! ## Needs and names -/

/-- The action with the number `a` has the number `b` among its needs. -/
def Needs (w : Workflow) (a b : Nat) : Prop :=
  ∃ act, w.actions[a]? = some act ∧ b ∈ act.needs

/-- No action needs itself, be it directly or through others. -/
def Acyclic (w : Workflow) : Prop := ∀ id, ¬ TransGen w.Needs id id

/-- All needs are numbers of actions. -/
def NeedsInRange (w : Workflow) : Prop := ∀ a ∈ w.actions, ∀ id ∈ a.needs, id < w.size

instance (w : Workflow) : Decidable w.NeedsInRange :=
  inferInstanceAs (Decidable (∀ a ∈ w.actions, ∀ id ∈ a.needs, id < w.size))

/-- The action with this number has this name. -/
def Named (w : Workflow) (id : Nat) (name : String) : Prop :=
  ∃ act, w.actions[id]? = some act ∧ act.name = name

theorem namesOf_cons {id : Nat} {act : Action} (h : w.actions[id]? = some act) (rest : List Nat) :
    w.namesOf (id :: rest) = (w.namesOf rest).map (act.name :: ·) := by
  simp only [namesOf, action, h]
  cases w.namesOf rest <;> rfl

theorem namesOf_eq_ok_iff {ids : List Nat} {names : List String} :
    w.namesOf ids = .ok names ↔ List.Forall₂ w.Named ids names := by
  induction ids generalizing names with
  | nil =>
    rw [List.forall₂_nil_left_iff, namesOf, Except.ok.injEq]
    exact eq_comm
  | cons id rest ih =>
    cases h : w.actions[id]? with
    | none =>
      have herror : w.namesOf (id :: rest) = .error (.defect (.actionOutOfRange id)) := by
        simp only [namesOf, action, h]
        rfl
      rw [herror, List.forall₂_cons_left_iff]
      simp [Named, h]
    | some act =>
      rw [namesOf_cons h, List.forall₂_cons_left_iff]
      cases hrest : w.namesOf rest with
      | error fault => simp [Except.map, ← ih, hrest]
      | ok later => simp [Except.map, ← ih, hrest, Named, h, eq_comm]

theorem exists_named {id : Nat} (h : id < w.size) : ∃ name, w.Named id name :=
  ⟨_, _, List.getElem?_eq_getElem h, rfl⟩

/-- Numbers of actions have names. -/
theorem exists_names {ids : List Nat} (h : ∀ id ∈ ids, id < w.size) :
    ∃ names, List.Forall₂ w.Named ids names := by
  induction ids with
  | nil => exact ⟨[], .nil⟩
  | cons id rest ih =>
    obtain ⟨hid, hrest⟩ := List.forall_mem_cons.mp h
    obtain ⟨name, hname⟩ := exists_named hid
    obtain ⟨names, hnames⟩ := ih hrest
    exact ⟨name :: names, .cons hname hnames⟩

/-! ## The graph of the needs -/

theorem size_graph (w : Workflow) : w.graph.size = w.size := by
  simp [graph, Graph.size, size]

theorem needsOf_graph {id : Nat} {act : Action} (h : w.actions[id]? = some act) :
    w.graph.needsOf id = act.needs := by
  simp [graph, Graph.needsOf, h]

theorem needs_graph (w : Workflow) : w.graph.Needs = w.Needs := by
  funext a b
  cases h : w.actions[a]? with
  | none => simp [Graph.Needs, Graph.needsOf, graph, Needs, h]
  | some act => simp [Graph.Needs, needsOf_graph h, Needs, h]

theorem NeedsInRange.graph (h : w.NeedsInRange) : w.graph.InRange := by
  intro id need hneed
  obtain ⟨act, hact, hmem⟩ : w.Needs id need := by
    rw [← needs_graph]
    exact hneed
  rw [size_graph]
  exact h act (List.mem_of_getElem? hact) need hmem

/-! ## What the scheduler answers -/

/-- Every action once, after all the actions that it needs. -/
structure IsOrder (w : Workflow) (ids : List Nat) : Prop where
  distinct : ids.Nodup
  complete : ∀ id, id ∈ ids ↔ id < w.size
  needsFirst : ∀ a b, w.Needs a b → ids.idxOf b < ids.idxOf a

/-- Different actions, `first` and then `rest`, of which each needs the next and the last needs
`first`. -/
structure IsCycle (w : Workflow) (first : Nat) (rest : List Nat) : Prop where
  distinct : (first :: rest).Nodup
  chain : (first :: (rest ++ [first])).IsChain w.Needs

namespace IsOrder

theorem idxOf_lt_of_transGen {ids : List Nat} (h : w.IsOrder ids) {a b : Nat}
    (hab : TransGen w.Needs a b) : ids.idxOf b < ids.idxOf a := by
  induction hab with
  | single hab => exact h.needsFirst _ _ hab
  | tail _ hbc ih => exact (h.needsFirst _ _ hbc).trans ih

/-- An action stands in the order behind everything that it needs, be it through others. -/
theorem mem_of_transGen {before after : List Nat} {a b : Nat}
    (h : w.IsOrder (before ++ a :: after)) (hab : TransGen w.Needs a b) : b ∈ before := by
  have hlt := h.idxOf_lt_of_transGen hab
  have ha : a ∉ before := fun hmem => (List.disjoint_of_nodup_append h.distinct) hmem (by simp)
  rw [List.idxOf_append_of_notMem ha, List.idxOf_cons_self, Nat.add_zero] at hlt
  by_contra hb
  rw [List.idxOf_append_of_notMem hb] at hlt
  omega

end IsOrder

theorem order_of_recursiveOrder_ok (h : w.NeedsInRange) {ids : List Nat}
    (hr : w.graph.recursiveOrder = .ok ids) : w.order = .ok ids := by
  rw [order, Graph.order_eq_recursiveOrder h.graph, hr]

theorem isCycle_of_isLoop {first : Nat} {rest : List Nat} (h : w.graph.IsLoop first rest) :
    w.IsCycle first rest :=
  ⟨h.distinct, w.needs_graph ▸ h.chain⟩

theorem lt_size_of_needs {a b : Nat} (h : w.Needs a b) : a < w.size := by
  obtain ⟨act, hact, -⟩ := h
  exact (List.getElem?_eq_some_iff.mp hact).1

theorem IsCycle.lt_size {first : Nat} {rest : List Nat} (h : w.IsCycle first rest) :
    ∀ id ∈ first :: rest, id < w.size := by
  intro id hid
  obtain ⟨before, after, hsplit⟩ := List.append_of_mem hid
  have hchain := h.chain
  rw [← List.cons_append, hsplit, List.append_assoc] at hchain
  cases after with
  | nil => exact lt_size_of_needs (List.isChain_append_cons_cons.mp hchain).2.1
  | cons next after => exact lt_size_of_needs (List.isChain_append_cons_cons.mp hchain).2.1

/-- In place of an order, the names of a cycle are reported. -/
theorem order_of_recursiveOrder_error (h : w.NeedsInRange) {loop : List Nat}
    (hr : w.graph.recursiveOrder = .error loop) :
    ∃ first rest name names, loop = first :: rest ∧ w.IsCycle first rest ∧
      List.Forall₂ w.Named (first :: rest) (name :: names) ∧
      w.order = .error (.ofCause (.cycle name names)) := by
  obtain ⟨first, rest, rfl, hloop⟩ := Graph.isLoop_of_recursiveOrder hr
  have hcycle := isCycle_of_isLoop hloop
  obtain ⟨all, hall⟩ := exists_names hcycle.lt_size
  obtain ⟨name, names, -, -, rfl⟩ := List.forall₂_cons_left_iff.mp hall
  refine ⟨first, rest, name, names, rfl, hcycle, hall, ?_⟩
  rw [order, Graph.order_eq_recursiveOrder h.graph, hr]
  simp only [cycleFault, namesOf_eq_ok_iff.mpr hall]

theorem isOrder_of_order (h : w.NeedsInRange) {ids : List Nat} (hids : w.order = .ok ids) :
    w.IsOrder ids := by
  cases hr : w.graph.recursiveOrder with
  | error loop =>
    obtain ⟨first, rest, name, names, -, -, -, herror⟩ := order_of_recursiveOrder_error h hr
    rw [herror] at hids
    cases hids
  | ok nodes =>
    rw [order_of_recursiveOrder_ok h hr] at hids
    cases hids
    obtain ⟨hordered, hall⟩ := Graph.ordered_of_recursiveOrder h.graph hr
    rw [size_graph] at hall
    refine ⟨hordered.nodup, hall, fun a b hab => ?_⟩
    exact hordered.idxOf_lt_of_needs ((hall a).mpr (lt_size_of_needs hab))
      (w.needs_graph.symm ▸ hab)

theorem acyclic_iff_exists_order (h : w.NeedsInRange) :
    w.Acyclic ↔ ∃ ids, w.order = .ok ids := by
  cases hr : w.graph.recursiveOrder with
  | ok nodes =>
    obtain ⟨hordered, hall⟩ := Graph.ordered_of_recursiveOrder h.graph hr
    have hacyclic := hordered.acyclic fun node hn => (hall node).mpr hn
    rw [Graph.Acyclic, needs_graph] at hacyclic
    exact ⟨fun _ => ⟨nodes, order_of_recursiveOrder_ok h hr⟩, fun _ => hacyclic⟩
  | error loop =>
    obtain ⟨first, rest, rfl, hloop⟩ := Graph.isLoop_of_recursiveOrder hr
    obtain ⟨_, _, _, _, -, -, -, herror⟩ := order_of_recursiveOrder_error h hr
    have hcycle := hloop.transGen_self
    rw [needs_graph] at hcycle
    simp only [herror, reduceCtorEq, exists_false, iff_false]
    exact fun hacyclic => hacyclic first hcycle

/-- A need, and the names of the two actions. -/
def NamedNeed (w : Workflow) (need : Nat × Nat) (edge : String × String) : Prop :=
  w.Needs need.1 need.2 ∧ w.Named need.1 edge.1 ∧ w.Named need.2 edge.2

/-- The needs along a chain, and their names. -/
theorem namedNeed_of_isChain {a b : Nat} {rest : List Nat} {n m : String} {names : List String}
    (hchain : (a :: (rest ++ [b])).IsChain w.Needs) (ha : w.Named a n)
    (hrest : List.Forall₂ w.Named rest names) (hb : w.Named b m) :
    List.Forall₂ w.NamedNeed ((a :: rest).zip (rest ++ [b])) ((n :: names).zip (names ++ [m])) := by
  induction hrest generalizing a n with
  | nil =>
    obtain ⟨hab, -⟩ := List.isChain_cons_cons.mp hchain
    exact .cons ⟨hab, ha, hb⟩ .nil
  | cons hnext _ ih =>
    obtain ⟨hab, htail⟩ := List.isChain_cons_cons.mp hchain
    exact .cons ⟨hab, ha, hnext⟩ (ih htail hnext)

/-! ## Main results -/

/-- A workflow whose actions have these names and needs. -/
def ofNeeds (actions : List (String × List Nat)) : Workflow where
  name := "ci"
  trigger := .push
  depends := []
  actions := actions.map fun a => ⟨a.1, "docker://alpine", none, none, a.2, .empty, []⟩

/-- **Scheduling is correct and complete**: there is an order exactly when no action needs itself,
and it has every action once, after all that it needs. -/
theorem exists_order_iff_acyclic (w : Workflow) (h : w.NeedsInRange) :
    ((∃ ids, w.order = .ok ids) ↔ w.Acyclic) ∧ ∀ ids, w.order = .ok ids → w.IsOrder ids := by
  refine ⟨(acyclic_iff_exists_order h).symm, ?_⟩
  intro ids hids
  exact isOrder_of_order h hids

/-- A need that comes later in the file, a repeated one, and an action on its own. -/
theorem exists_order_iff_acyclic_forward :
    let w := ofNeeds [("deploy", [2, 1, 2]), ("lint", [2]), ("unit", []), ("docs", [])]
    w.NeedsInRange ∧ ((∃ ids, w.order = .ok ids) ↔ w.Acyclic) ∧
      ∀ ids, w.order = .ok ids → w.IsOrder ids :=
  ⟨by decide, exists_order_iff_acyclic _ (by decide)⟩

/-- **A reported cycle is a cycle**: different actions each of which needs the next, the last one
the first, reported by name and in this order, with no others. -/
theorem cycle_of_order_error (w : Workflow) (h : w.NeedsInRange) {fault : Fault}
    (hfault : w.order = .error fault) :
    ∃ first rest name names, w.IsCycle first rest ∧ fault = .ofCause (.cycle name names) ∧
      List.Forall₂ w.Named (first :: rest) (cycleNames name names) ∧
      List.Forall₂ w.NamedNeed ((first :: rest).zip (rest ++ [first])) (cycleEdges name names) ∧
      ∃ round, List.Forall₂ w.Named (first :: (rest ++ [first])) round ∧
        cyclePath name names = " -> ".intercalate round := by
  cases hr : w.graph.recursiveOrder with
  | ok ids =>
    rw [order_of_recursiveOrder_ok h hr] at hfault
    cases hfault
  | error loop =>
    obtain ⟨first, rest, name, names, -, hcycle, hnames, herror⟩ :=
      order_of_recursiveOrder_error h hr
    rw [herror] at hfault
    cases hfault
    obtain ⟨hname, hrest⟩ := List.forall₂_cons.mp hnames
    refine ⟨first, rest, name, names, hcycle, rfl, hnames, ?_, _, ?_, rfl⟩
    · exact namedNeed_of_isChain hcycle.chain hname hrest hname
    · exact .cons hname (List.rel_append hrest (.cons hname .nil))

/-- The action `x` leads into the cycle and is not part of it. -/
theorem cycle_of_order_error_leadIn :
    let w := ofNeeds [("x", [1]), ("a", [2]), ("b", [3]), ("c", [1])]
    w.NeedsInRange ∧ w.order = .error (.ofCause (.cycle "a" ["b", "c"])) ∧
    ∃ first rest name names, w.IsCycle first rest ∧
      Fault.ofCause (.cycle "a" ["b", "c"]) = .ofCause (.cycle name names) ∧
      List.Forall₂ w.Named (first :: rest) (cycleNames name names) ∧
      List.Forall₂ w.NamedNeed ((first :: rest).zip (rest ++ [first])) (cycleEdges name names) ∧
      ∃ round, List.Forall₂ w.Named (first :: (rest ++ [first])) round ∧
        cyclePath name names = " -> ".intercalate round := by
  have horder : (ofNeeds [("x", [1]), ("a", [2]), ("b", [3]), ("c", [1])]).order
      = .error (.ofCause (.cycle "a" ["b", "c"])) := by cbv
  exact ⟨by decide, horder, cycle_of_order_error _ (by decide) horder⟩

/-- **The scheduler is the recursive search**: it finds the same order, or reports the names of the
same loop from the same action on. -/
theorem order_eq_recursive (w : Workflow) (h : w.NeedsInRange) :
    w.graph.size = w.size ∧
    (∀ id act, w.actions[id]? = some act → w.graph.needsOf id = act.needs) ∧
    match w.graph.recursiveOrder with
    | .ok ids => w.order = .ok ids
    | .error loop => ∃ name names, List.Forall₂ w.Named loop (name :: names) ∧
        w.order = .error (.ofCause (.cycle name names)) := by
  refine ⟨w.size_graph, fun _ _ => needsOf_graph, ?_⟩
  cases hr : w.graph.recursiveOrder with
  | ok ids => exact order_of_recursiveOrder_ok h hr
  | error loop =>
    obtain ⟨first, rest, name, names, rfl, -, hnames, herror⟩ :=
      order_of_recursiveOrder_error h hr
    exact ⟨name, names, hnames, herror⟩

/-- Of two cycles, the one that is met first. -/
theorem order_eq_recursive_twoCycles :
    let w := ofNeeds [("a", []), ("b", [0, 3, 2]), ("c", [2]), ("d", [1])]
    w.NeedsInRange ∧ w.graph.size = w.size ∧
    (∀ id act, w.actions[id]? = some act → w.graph.needsOf id = act.needs) ∧
    match w.graph.recursiveOrder with
    | .ok ids => w.order = .ok ids
    | .error loop => ∃ name names, List.Forall₂ w.Named loop (name :: names) ∧
        w.order = .error (.ofCause (.cycle name names)) :=
  ⟨by decide, order_eq_recursive _ (by decide)⟩

end ContainerFlow.Workflow
