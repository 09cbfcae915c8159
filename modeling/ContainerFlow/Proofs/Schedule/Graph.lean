/-
ContainerFlow.Proofs.Schedule.Graph — the relation between a node and
what it needs, and the two answers that a scheduler may give about it.

* `Graph.Ordered` — a list of nodes, each of them once and after all the
  nodes that it needs.  Built from the end, because that is the end at
  which a search appends.
* `Graph.IsLoop` — different nodes of which each needs the next and the
  last needs the first.

The two exclude each other: a loop is a cycle (`IsLoop.transGen_self`),
and a graph whose nodes can be ordered has none (`Ordered.acyclic`).
-/
import Mathlib.Logic.Relation
import Mathlib.Data.List.Chain
import ContainerFlow.Schedule.Search

namespace ContainerFlow.Graph

/-! ## Needs -/

/-- The node `a` needs the node `b`. -/
def Needs (g : Graph) (a b : Nat) : Prop := b ∈ g.needsOf a

/-- No node needs itself, be it directly or through others. -/
def Acyclic (g : Graph) : Prop := ∀ node, ¬ Relation.TransGen g.Needs node node

/-- What is not a node of the graph needs nothing. -/
theorem needsOf_of_size_le {g : Graph} {node : Nat} (h : g.size ≤ node) :
    g.needsOf node = [] := by
  have hnone : g.needs[node]? = none := Array.getElem?_eq_none_iff.mpr h
  simp [needsOf, hnone]

theorem Needs.lt_size {g : Graph} {a b : Nat} (h : g.Needs a b) : a < g.size := by
  by_contra hle
  simp [Needs, needsOf_of_size_le (Nat.le_of_not_lt hle)] at h

theorem inRange_iff {g : Graph} :
    g.InRange ↔ ∀ needs ∈ g.needs.toList, ∀ need ∈ needs, need < g.size := by
  refine ⟨fun h needs hneeds => ?_, fun h node need hneed => ?_⟩
  · obtain ⟨node, hnode⟩ := List.mem_iff_getElem?.mp hneeds
    have heq : g.needsOf node = needs := by simpa [needsOf] using congrArg (Option.getD · []) hnode
    exact heq ▸ h node
  · cases hnode : g.needs[node]? with
    | none => simp [needsOf, hnode] at hneed
    | some needs =>
      refine h needs (List.mem_of_getElem? (by simpa using hnode)) need ?_
      simpa [needsOf, hnode] using hneed

instance (g : Graph) : Decidable g.InRange := decidable_of_iff' _ inRange_iff

/-- Nodes lead to nodes only. -/
theorem InRange.lt_size_of_reflTransGen {g : Graph} (h : g.InRange) {a b : Nat}
    (ha : a < g.size) (hab : Relation.ReflTransGen g.Needs a b) : b < g.size := by
  induction hab with
  | refl => exact ha
  | tail _ hbc _ => exact h _ _ hbc

/-! ## Orders -/

/-- A list of nodes, each of them once and after all that it needs. -/
inductive Ordered (g : Graph) : List Nat → Prop where
  | nil : Ordered g []
  | snoc {nodes : List Nat} {node : Nat} (before : Ordered g nodes) (new : node ∉ nodes)
      (needs : ∀ need ∈ g.needsOf node, need ∈ nodes) : Ordered g (nodes ++ [node])

namespace Ordered

variable {g : Graph} {nodes : List Nat}

theorem nodup (h : g.Ordered nodes) : nodes.Nodup := by
  induction h with
  | nil => exact List.nodup_nil
  | snoc _ new _ ih => exact List.nodup_append.mpr ⟨ih, by simp, by grind⟩

/-- What a node of an order needs is in the order too. -/
theorem mem_of_needs (h : g.Ordered nodes) {a b : Nat} (ha : a ∈ nodes) (hab : g.Needs a b) :
    b ∈ nodes := by
  induction h with
  | nil => cases ha
  | snoc _ _ needs ih =>
    rcases List.mem_append.mp ha with ha | ha
    · exact List.mem_append_left _ (ih ha)
    · cases List.mem_singleton.mp ha
      exact List.mem_append_left _ (needs b hab)

/-- What a node of an order needs stands before it. -/
theorem idxOf_lt_of_needs (h : g.Ordered nodes) {a b : Nat} (ha : a ∈ nodes)
    (hab : g.Needs a b) : nodes.idxOf b < nodes.idxOf a := by
  induction h with
  | nil => cases ha
  | @snoc nodes node before new needs ih =>
    by_cases han : a = node
    · subst han
      have hb : b ∈ nodes := needs b hab
      rw [List.idxOf_append_of_mem hb, List.idxOf_append_of_notMem new]
      have := List.idxOf_lt_length_of_mem hb
      omega
    · have ha : a ∈ nodes := by simpa [han] using ha
      rw [List.idxOf_append_of_mem ha, List.idxOf_append_of_mem (before.mem_of_needs ha hab)]
      exact ih ha

/-- What a node of an order needs, be it through others, stands before it. -/
theorem idxOf_lt_of_transGen (h : g.Ordered nodes) {a b : Nat} (ha : a ∈ nodes)
    (hab : Relation.TransGen g.Needs a b) :
    b ∈ nodes ∧ nodes.idxOf b < nodes.idxOf a := by
  induction hab with
  | single hab => exact ⟨h.mem_of_needs ha hab, h.idxOf_lt_of_needs ha hab⟩
  | tail _ hbc ih =>
    exact ⟨h.mem_of_needs ih.1 hbc, (h.idxOf_lt_of_needs ih.1 hbc).trans ih.2⟩

/-- A graph whose nodes are all in an order has no cycle. -/
theorem acyclic (h : g.Ordered nodes) (hall : ∀ node < g.size, node ∈ nodes) : g.Acyclic := by
  intro node hcycle
  obtain ⟨need, hneed, -⟩ := Relation.TransGen.head'_iff.mp hcycle
  exact (h.idxOf_lt_of_transGen (hall node hneed.lt_size) hcycle).2.false

end Ordered

/-! ## Loops -/

/-- Different nodes, `first` and then `rest`, of which each needs the next and the last needs
`first`. -/
structure IsLoop (g : Graph) (first : Nat) (rest : List Nat) : Prop where
  distinct : (first :: rest).Nodup
  chain : (first :: (rest ++ [first])).IsChain g.Needs

/-- The first node of a loop needs itself, through all the others. -/
theorem IsLoop.transGen_self {g : Graph} {first : Nat} {rest : List Nat}
    (h : g.IsLoop first rest) : Relation.TransGen g.Needs first first := by
  have hchain : (first :: (rest ++ [first])).IsChain (Relation.TransGen g.Needs) :=
    h.chain.imp fun _ _ hab => .single hab
  exact List.rel_of_pairwise_cons hchain.pairwise (by simp)

end ContainerFlow.Graph
