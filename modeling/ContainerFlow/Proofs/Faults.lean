/-
ContainerFlow.Proofs.Faults — the ways in which a text fails to be a
plan.

From a text to a plan every step may fail.  `FailsOnlyAs codes x` is
that `x` is a value or a failure with one of the codes, and never a
defect.  The steps are taken in the order in which they are made, each
with the codes that are its own: of blocks and of definitions these are
the codes of what there is to complain about.  What a step takes for
granted of the steps before it (two kinds of blocks, numbers of actions,
cycles with a first node) is what keeps it from a defect.

That tokens, nodes and places are looked up only where they are is in
`Proofs.Block.Walk` and `Proofs.Schedule.Traversal`.  The main result puts
all of it together for every text.
-/
import Mathlib
import ContainerFlow.Plan
import ContainerFlow.Proofs.Block.Spelling
import ContainerFlow.Proofs.Block.Walk
import ContainerFlow.Proofs.Compile
import ContainerFlow.Proofs.Culprit.Block
import ContainerFlow.Proofs.Resolve.Complaints
import ContainerFlow.Proofs.Schedule.Traversal
import ContainerFlow.Proofs.Schedule.Order

namespace ContainerFlow

/-! ## Steps that fail -/

section Steps

variable {α β : Type} {codes more : List String} {x : Except Fault α}

/-- The step comes to a value, or to a failure with one of these codes. -/
def FailsOnlyAs (codes : List String) (x : Except Fault α) : Prop :=
  ∀ fault, x = .error fault → ∃ f : Failure, fault = .failure f ∧ f.cause.code ∈ codes

namespace FailsOnlyAs

theorem ok (a : α) : FailsOnlyAs codes (.ok a : Except Fault α) := by
  intro fault h
  cases h

theorem failure {f : Failure} (h : f.cause.code ∈ codes) :
    FailsOnlyAs codes (.error (.failure f) : Except Fault α) := by
  intro fault hfault
  cases hfault
  exact ⟨f, rfl, h⟩

theorem mono (h : FailsOnlyAs codes x) (hsub : codes ⊆ more) : FailsOnlyAs more x := by
  intro fault hfault
  obtain ⟨f, rfl, hcode⟩ := h fault hfault
  exact ⟨f, rfl, hsub hcode⟩

/-- A chain fails as its first step does, or as the rest of it does after that step. -/
theorem bind {f : α → Except Fault β} (hx : FailsOnlyAs codes x)
    (hf : ∀ a, x = .ok a → FailsOnlyAs codes (f a)) : FailsOnlyAs codes (x >>= f) := by
  cases x with
  | ok a => exact hf a rfl
  | error fault =>
    intro fault' h
    cases h
    exact hx fault rfl

theorem map {f : α → β} (hx : FailsOnlyAs codes x) : FailsOnlyAs codes (x.map f) := by
  cases x with
  | ok a => exact .ok (f a)
  | error fault =>
    intro fault' h
    cases h
    exact hx fault rfl

end FailsOnlyAs

end Steps

/-! ## Blocks -/

/-- A text that is not a row of blocks is malformed. -/
theorem Block.failsOnlyAs_ofText (text : String) : FailsOnlyAs ["syntax"] (Block.ofText text) := by
  intro fault h
  obtain ⟨why, position, rfl⟩ := exists_malformed_of_error h
  exact ⟨_, rfl, List.mem_singleton.mpr rfl⟩

/-! ## Definitions -/

/-- The codes of a block that makes no sense. -/
def Definition.codes : List String :=
  ["duplicate_key", "missing_required_key", "type_mismatch", "unexpected_key"]

/-- A block of one of the two kinds fails for what is wrong with it. -/
theorem Definition.failsOnlyAs_ofBlock {b : Block}
    (hkind : b.kind = Block.workflowKind ∨ b.kind = Block.actionKind) :
    FailsOnlyAs codes (ofBlock b) := by
  intro fault h
  obtain ⟨cause, spot, hfaulty, -, rfl⟩ := reports_of_ofBlock hkind h
  refine ⟨_, rfl, ?_⟩
  cases hfaulty <;> simp [codes, Cause.code]

theorem Definition.failsOnlyAs_ofBlocks {blocks : List Block}
    (hkinds : ∀ b ∈ blocks, b.kind = Block.workflowKind ∨ b.kind = Block.actionKind) :
    FailsOnlyAs codes (ofBlocks blocks) := by
  intro fault h
  obtain ⟨before, b, after, rfl, -, hb⟩ := ofBlocks_eq_error_iff.mp h
  exact failsOnlyAs_ofBlock (hkinds b (by simp)) fault hb

/-! ## Workflows -/

/-- The codes of definitions that make up no workflow. -/
def Workflow.codes : List String :=
  ["duplicate_action", "multiple_workflows", "unknown_trigger", "unknown_action",
    "missing_workflow"]

namespace Workflow

/-- The fault is a failure with one of these codes. -/
def HasCode (fault : Fault) : Prop := ∃ f : Failure, fault = .failure f ∧ f.cause.code ∈ codes

theorem hasCode_of_repeats {before : List Definition} {d : Definition} {fault : Fault}
    (h : fault ∈ Definition.repeats before d) : HasCode fault := by
  cases d with
  | workflow w => cases h
  | action a =>
    cases List.mem_singleton.mp (List.mem_ite_nil_right.mp h).2
    exact ⟨_, rfl, by simp [codes, Cause.code]⟩

theorem hasCode_of_strays {names references : List String} {referrer : String} {position : Position}
    {fault : Fault} (h : fault ∈ Definition.strays names referrer position references) :
    HasCode fault := by
  obtain ⟨name, -, -, rfl⟩ := Definition.mem_strays.mp h
  exact ⟨_, rfl, by simp [codes, Cause.code]⟩

theorem hasCode_of_mistakes {names : List String} {before : List Definition} {d : Definition}
    {fault : Fault} (h : fault ∈ Definition.mistakes names before d) : HasCode fault := by
  cases d with
  | workflow w =>
    rcases List.mem_append.mp h with hsecond | h
    · cases List.mem_singleton.mp (List.mem_ite_nil_left.mp hsecond).2
      exact ⟨_, rfl, by simp [codes, Cause.code]⟩
    rcases List.mem_append.mp h with htrigger | hstray
    · cases List.mem_singleton.mp (List.mem_ite_nil_left.mp htrigger).2
      exact ⟨_, rfl, by simp [codes, Cause.code]⟩
    · exact hasCode_of_strays hstray
  | action a => exact hasCode_of_strays h

theorem hasCode_of_complaints {ds : List Definition} {fault : Fault}
    (h : fault ∈ Definition.complaints ds) : HasCode fault := by
  rcases List.mem_append.mp h with hrepeats | h
  · exact forall_mem_inTurn (fun _ _ _ _ => hasCode_of_repeats) fault hrepeats
  rcases List.mem_append.mp h with hmistakes | hmissing
  · exact forall_mem_inTurn (fun _ _ _ _ => hasCode_of_mistakes) fault hmistakes
  · cases List.mem_singleton.mp (List.mem_ite_nil_right.mp hmissing).2
    exact ⟨_, rfl, by simp [codes, Cause.code]⟩

/-- Definitions that make up no workflow fail for the first of their complaints. -/
theorem failsOnlyAs_ofDefinitions (ds : List Definition) :
    FailsOnlyAs codes (ofDefinitions ds) := by
  intro fault h
  exact hasCode_of_complaints (List.mem_of_head? ((failsAsFirst_ofDefinitions ds fault).mp h))

/-- The codes of a text that does not come to a plan. -/
def documentedCodes : List String :=
  ["syntax", "duplicate_key", "missing_required_key", "type_mismatch", "unexpected_key",
    "duplicate_action", "multiple_workflows", "unknown_trigger", "unknown_action",
    "missing_workflow", "lint", "cycle"]

theorem failsOnlyAs_ofText (text : String) : FailsOnlyAs documentedCodes (ofText text) := by
  refine .bind ((Block.failsOnlyAs_ofText text).mono (by simp [documentedCodes]))
    fun blocks hblocks => ?_
  have hdefinitions : Definition.codes ⊆ documentedCodes := by
    simp [Definition.codes, documentedCodes]
  have hworkflow : codes ⊆ documentedCodes := by simp [codes, documentedCodes]
  -- The reader of blocks makes no others than the two kinds.
  have hkinds := fun b hb => (spelled_of_ofText hblocks b hb).kind
  refine .bind ((Definition.failsOnlyAs_ofBlocks hkinds).mono hdefinitions) fun ds _ => ?_
  exact (failsOnlyAs_ofDefinitions ds).mono hworkflow

theorem failsOnlyAs_compile (text : String) :
    FailsOnlyAs documentedCodes (compile text).result := by
  have htext := failsOnlyAs_ofText text
  rw [compile, compileReporting]
  cases hw : ofText text with
  | error fault =>
    rw [hw] at htext
    exact htext
  | ok w =>
    refine FailsOnlyAs.map ?_
    unfold Policy.Review.check
    split
    · exact .ok ()
    · exact .failure (by simp [documentedCodes, Cause.code])

theorem failsOnlyAs_order {w : Workflow} (h : w.NeedsInRange) : FailsOnlyAs ["cycle"] w.order := by
  intro fault hfault
  cases hr : w.graph.recursiveOrder with
  | ok ids =>
    rw [order_of_recursiveOrder_ok h hr] at hfault
    cases hfault
  | error loop =>
    obtain ⟨_, _, name, names, -, -, -, herror⟩ := order_of_recursiveOrder_error h hr
    rw [herror] at hfault
    cases hfault
    exact ⟨_, rfl, List.mem_singleton.mpr rfl⟩

/-- Numbers of actions have names. -/
theorem exists_namesOf {w : Workflow} {ids : List Nat} (h : ∀ id ∈ ids, id < w.size) :
    ∃ names, w.namesOf ids = .ok names := by
  obtain ⟨names, hnames⟩ := exists_names h
  exact ⟨names, namesOf_eq_ok_iff.mpr hnames⟩

end Workflow

/-! ## Plans -/

namespace Plan

variable {w : Workflow} {ids : List Nat}

/-- Numbers of actions have entries. -/
theorem exists_entriesOf (h : w.InRange) (hids : ∀ id ∈ ids, id < w.size) :
    ∃ entries, entriesOf w ids = .ok entries := by
  induction ids with
  | nil => exact ⟨[], rfl⟩
  | cons id rest ih =>
    obtain ⟨hid, hrest⟩ := List.forall_mem_cons.mp hids
    obtain ⟨later, hlater⟩ := ih hrest
    obtain ⟨act, hact⟩ : ∃ act, w.actions[id]? = some act := ⟨_, List.getElem?_eq_getElem hid⟩
    have haction : w.action id = .ok act := by rw [Workflow.action, hact]
    obtain ⟨names, hnames⟩ := Workflow.exists_namesOf (h.2 act (List.mem_of_getElem? hact))
    obtain ⟨entry, hentry⟩ : ∃ entry, Entry.ofId w id = .ok entry :=
      ⟨_, bind_eq_ok_iff.mpr ⟨act, haction, bind_eq_ok_iff.mpr ⟨names, hnames, rfl⟩⟩⟩
    exact ⟨_, bind_eq_ok_iff.mpr ⟨entry, hentry, bind_eq_ok_iff.mpr ⟨later, hlater, rfl⟩⟩⟩

/-- There is a plan for every order of actions. -/
theorem exists_ofOrder (h : w.InRange) (hids : ∀ id ∈ ids, id < w.size) :
    ∃ p, ofOrder w ids = .ok p := by
  obtain ⟨entries, hentries⟩ := exists_entriesOf h hids
  obtain ⟨resolves, hresolves⟩ := Workflow.exists_namesOf h.1
  exact ⟨_, bind_eq_ok_iff.mpr ⟨entries, hentries, bind_eq_ok_iff.mpr ⟨resolves, hresolves, rfl⟩⟩⟩

/-- The plan that a text comes to: it is compiled, its actions are ordered, and the order is
shown. -/
def ofText (text : String) : Except Fault Plan := do
  let w ← (Workflow.compile text).result
  let ids ← w.order
  ofOrder w ids

theorem failsOnlyAs_ofText (text : String) :
    FailsOnlyAs Workflow.documentedCodes (ofText text) := by
  refine .bind (Workflow.failsOnlyAs_compile text) fun w hw => ?_
  have hin := Workflow.inRange_of_compile hw
  have hcycle : ["cycle"] ⊆ Workflow.documentedCodes := by simp [Workflow.documentedCodes]
  refine .bind ((Workflow.failsOnlyAs_order hin.2).mono hcycle) fun ids hids => ?_
  have horder := Workflow.isOrder_of_order hin.2 hids
  obtain ⟨p, hp⟩ := exists_ofOrder hin fun id hid => (horder.complete id).mp hid
  rw [hp]
  exact .ok p

/-! ## Main result -/

/-- **A text fails only as documented**: it comes to a plan, or to a failure with one of the
documented codes, and to no defect.  On the way the reader of blocks looks up no token and the
scheduler no node, need or place that is not there. -/
theorem ofText_fails_as_documented (text : String) :
    ((∃ p, ofText text = .ok p) ∨
      ∃ f, ofText text = .error (.failure f) ∧ f.cause.code ∈ Workflow.documentedCodes) ∧
    walk (scan text).tokens = Walk.liftAll (readBlocks (scan text).tokens) ∧
    ∀ w, (Workflow.compile text).result = .ok w → w.graph.order? = some w.graph.order := by
  refine ⟨?_, walk_eq _, fun w hw => ?_⟩
  · have hfails := failsOnlyAs_ofText text
    cases hplan : ofText text with
    | ok p => exact .inl ⟨p, rfl⟩
    | error fault =>
      obtain ⟨f, rfl, hcode⟩ := hfails fault hplan
      exact .inr ⟨f, rfl, hcode⟩
  · exact Graph.order?_eq (Workflow.NeedsInRange.graph (Workflow.inRange_of_compile hw).2)

end Plan

end ContainerFlow
