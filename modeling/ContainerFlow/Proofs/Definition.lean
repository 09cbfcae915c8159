/-
ContainerFlow.Proofs.Definition — which block a definition comes of.

The definitions of a file come of its blocks one by one and in order
(`forall₂_of_ofBlocks`); taken by kind, the actions come of the action
blocks and the workflows of the workflow blocks (`forall₂_actions`,
`forall₂_workflows`).  What a definition declares stands in its block.
-/
import Mathlib.Data.List.Forall2
import ContainerFlow.Proofs.Resolve

namespace ContainerFlow

/-! ## Keys of a block -/

theorem Block.workflowKind_ne_actionKind : workflowKind ≠ actionKind := by decide

theorem Value.asMap_eq_ok_iff {v : Value} {position : Option Position} {b : Bindings} :
    v.asMap position = .ok b ↔ v = .map b := by
  cases v <;> simp [asMap]

namespace Block

variable {α : Type} {b : Block} {key : String} {read : Value → Option Position → Except Fault α}

/-- What is read for a key that may be left out is read from a pair with the key. -/
theorem exists_pair_of_optional {a : α} (h : b.optional key read = .ok (some a)) :
    ∃ pair ∈ b.pairs, pair.key = key ∧ read pair.value (some pair.position) = .ok a := by
  unfold optional at h
  split at h
  · next pair hpair =>
    obtain ⟨a', hread, ha⟩ := map_eq_ok_iff.mp h
    cases ha
    exact ⟨pair, List.mem_of_find?_eq_some hpair, by simpa using List.find?_some hpair, hread⟩
  · cases h

/-- What is read for a key that has to be there is read from a pair with the key. -/
theorem exists_pair_of_required {a : α} (h : b.required key read = .ok a) :
    ∃ pair ∈ b.pairs, pair.key = key ∧ read pair.value (some pair.position) = .ok a := by
  unfold required at h
  split at h
  · next pair hpair =>
    exact ⟨pair, List.mem_of_find?_eq_some hpair, by simpa using List.find?_some hpair, h⟩
  · cases h

end Block

/-! ## Definitions of a kind -/

/-- Everything that a block has to satisfy to define an action, and the action that it defines. -/
theorem ActionDefinition.ofBlock_eq_ok_iff {b : Block} {d : ActionDefinition} :
    ofBlock b = .ok d ↔
      b.checkDistinct = .ok () ∧ b.checkRequired requiredKeys = .ok () ∧
      ∃ uses, b.required "uses" Value.asString = .ok uses ∧
      ∃ needs, b.optional "needs" Value.singletonOrArray = .ok needs ∧
      ∃ runs, b.optional "runs" Value.wordsOrArray = .ok runs ∧
      ∃ args, b.optional "args" Value.wordsOrArray = .ok args ∧
      ∃ env, b.optional "env" Value.asMap = .ok env ∧
      ∃ secrets, b.optional "secrets" Value.asArray = .ok secrets ∧
      b.checkKnown keys = .ok () ∧
      { name := b.name, uses, needs := needs.getD [], runs, args, env := env.getD .empty,
        secrets := secrets.getD [], position := b.position } = d := by
  simp only [ofBlock, bind_eq_ok_iff, pure, Except.pure, Except.ok.injEq, Unique.exists_iff,
    PUnit.default_eq_unit]

/-- Everything that a block has to satisfy to define a workflow, and the workflow that it
defines. -/
theorem WorkflowDefinition.ofBlock_eq_ok_iff {b : Block} {d : WorkflowDefinition} :
    ofBlock b = .ok d ↔
      b.checkDistinct = .ok () ∧ b.checkRequired keys = .ok () ∧
      ∃ trigger, b.required "on" Value.asString = .ok trigger ∧
      ∃ resolves, b.required "resolves" Value.singletonOrArray = .ok resolves ∧
      b.checkKnown keys = .ok () ∧
      { name := b.name, trigger, resolves, position := b.position } = d := by
  simp only [ofBlock, bind_eq_ok_iff, pure, Except.pure, Except.ok.injEq, Unique.exists_iff,
    PUnit.default_eq_unit]

/-- The variables of an action are written as a map in its block, or there are none. -/
theorem ActionDefinition.env_of_ofBlock {b : Block} {d : ActionDefinition}
    (h : ofBlock b = .ok d) : d.env = .empty ∨ ∃ pair ∈ b.pairs, pair.value = .map d.env := by
  obtain ⟨-, -, _, -, _, -, _, -, _, -, env, henv, _, -, -, rfl⟩ := ofBlock_eq_ok_iff.mp h
  cases env with
  | none => exact .inl rfl
  | some env =>
    obtain ⟨pair, hpair, -, hread⟩ := Block.exists_pair_of_optional henv
    exact .inr ⟨pair, hpair, Value.asMap_eq_ok_iff.mp hread⟩

theorem WorkflowDefinition.name_of_ofBlock {b : Block} {d : WorkflowDefinition}
    (h : ofBlock b = .ok d) : d.name = b.name := by
  obtain ⟨-, -, _, -, _, -, -, rfl⟩ := ofBlock_eq_ok_iff.mp h
  rfl

namespace Definition

variable {b : Block} {blocks : List Block} {ds : List Definition}

theorem ofBlock_eq_workflow_iff {d : WorkflowDefinition} :
    ofBlock b = .ok (.workflow d) ↔
      b.kind = Block.workflowKind ∧ WorkflowDefinition.ofBlock b = .ok d := by
  unfold ofBlock
  split
  · next hkind => simp [map_eq_ok_iff, hkind]
  · next hkind => split <;> simp [map_eq_ok_iff, hkind]

theorem ofBlock_eq_action_iff {d : ActionDefinition} :
    ofBlock b = .ok (.action d) ↔
      b.kind = Block.actionKind ∧ ActionDefinition.ofBlock b = .ok d := by
  unfold ofBlock
  split
  · next hkind => simp [map_eq_ok_iff, hkind, Block.workflowKind_ne_actionKind]
  · split
    · next hkind => simp [map_eq_ok_iff, hkind]
    · next hkind => simp [hkind]

theorem forall₂_of_ofBlocks (h : ofBlocks blocks = .ok ds) :
    List.Forall₂ (fun b d => ofBlock b = .ok d) blocks ds := by
  induction blocks generalizing ds with
  | nil =>
    cases h
    exact .nil
  | cons b rest ih =>
    obtain ⟨d, hd, h⟩ := bind_eq_ok_iff.mp h
    obtain ⟨later, hlater, h⟩ := bind_eq_ok_iff.mp h
    cases h
    exact .cons hd (ih hlater)

/-- Actions come of action blocks, one by one. -/
theorem forall₂_actions (h : List.Forall₂ (fun b d => ofBlock b = .ok d) blocks ds) :
    List.Forall₂ (fun b d => ActionDefinition.ofBlock b = .ok d)
      (blocks.filter (·.kind = Block.actionKind)) (actions ds) := by
  induction h with
  | nil => exact .nil
  | @cons b d _ _ hd _ ih =>
    cases d with
    | action d =>
      obtain ⟨hkind, hd⟩ := ofBlock_eq_action_iff.mp hd
      rw [List.filter_cons_of_pos (by simpa using hkind)]
      exact .cons hd ih
    | workflow d =>
      obtain ⟨hkind, -⟩ := ofBlock_eq_workflow_iff.mp hd
      rw [List.filter_cons_of_neg (by simpa [hkind] using Block.workflowKind_ne_actionKind)]
      exact ih

/-- Workflows come of workflow blocks, one by one. -/
theorem forall₂_workflows (h : List.Forall₂ (fun b d => ofBlock b = .ok d) blocks ds) :
    List.Forall₂ (fun b d => WorkflowDefinition.ofBlock b = .ok d)
      (blocks.filter (·.kind = Block.workflowKind)) (workflows ds) := by
  induction h with
  | nil => exact .nil
  | @cons b d _ _ hd _ ih =>
    cases d with
    | action d =>
      obtain ⟨hkind, -⟩ := ofBlock_eq_action_iff.mp hd
      rw [List.filter_cons_of_neg (by simpa [hkind] using Block.workflowKind_ne_actionKind.symm)]
      exact ih
    | workflow d =>
      obtain ⟨hkind, hd⟩ := ofBlock_eq_workflow_iff.mp hd
      rw [List.filter_cons_of_pos (by simpa using hkind)]
      exact .cons hd ih

end Definition

end ContainerFlow
