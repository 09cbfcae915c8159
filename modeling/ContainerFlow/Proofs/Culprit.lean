/-
ContainerFlow.Proofs.Culprit — what a text is refused for, and where it
stands in the text.

`Blames blocks cause place` reads a cause off the blocks of a file alone:
something is wrong with one of them (`Block.Faulty`), or with a block as
one of the file: it is an action with the name of an earlier one, a
workflow behind another, or it says something that no block of the file
bears out.  The head of the block is then the place.

The main statement is `culprit_of_ofText`: the position of a fault is that
of the token at such a place, or that of the character or token with
which the text stops being a workflow file.  A fault without a position
is that there is no workflow.
-/
import Mathlib
import ContainerFlow.Proofs.Culprit.Block
import ContainerFlow.Proofs.Culprit.Text
import ContainerFlow.Proofs.Resolve.Complaints

namespace ContainerFlow

/-! ## Causes -/

/-- The value is the name, or an array in which it is. -/
def Value.Lists (name : String) : Value → Prop
  | .string text => text = name
  | .array items => name ∈ items
  | .map _ => False

namespace Block

/-- The key under which a block refers to actions. -/
def referenceKey (b : Block) : String := if b.kind = workflowKind then "resolves" else "needs"

/-- The block refers to an action of this name. -/
def RefersTo (b : Block) (name : String) : Prop :=
  ∃ pair ∈ b.pairs, pair.key = b.referenceKey ∧ pair.value.Lists name

end Block

/-- What may be wrong with the blocks of a file, and where. -/
inductive Blames (blocks : List Block) : Cause → Place → Prop where
  /-- Something is wrong with a block by itself. -/
  | within {before : List Block} {b : Block} {cause : Cause} {spot : Spot}
      (faulty : b.Faulty cause spot) :
      Blames blocks cause ⟨before, b, spot⟩
  /-- An earlier action has the name of this one. -/
  | duplicateAction {before : List Block} {b e : Block} (kind : b.kind = Block.actionKind)
      (earlier : e ∈ before) (earlier_kind : e.kind = Block.actionKind) (same : e.name = b.name) :
      Blames blocks (.duplicateAction b.name) ⟨before, b, .head⟩
  /-- The block refers to an action that no block of the file is. -/
  | unknownAction {before : List Block} {b : Block} {name : String} (refers : b.RefersTo name)
      (unknown : ∀ e ∈ blocks, e.kind = Block.actionKind → e.name ≠ name) :
      Blames blocks (.unknownAction s!"{b.kind} {b.name}" name) ⟨before, b, .head⟩
  /-- The workflow is to start on an event that there is not. -/
  | unknownTrigger {before : List Block} {b : Block} {pair : Pair} {trigger : String}
      (kind : b.kind = Block.workflowKind) (mem : pair ∈ b.pairs) (key : pair.key = "on")
      (value : pair.value = .string trigger) (unknown : trigger ≠ "push") :
      Blames blocks (.unknownTrigger trigger) ⟨before, b, .head⟩
  /-- One workflow stands before this one. -/
  | multipleWorkflows {before : List Block} {b : Block} (kind : b.kind = Block.workflowKind)
      (second : (before.filter (·.kind = Block.workflowKind)).length = 1) :
      Blames blocks .multipleWorkflows ⟨before, b, .head⟩

/-! ## Definitions and their blocks -/

namespace Value

theorem asString_eq_ok_iff {v : Value} {position : Option Position} {text : String} :
    v.asString position = .ok text ↔ v = .string text := by
  cases v <;> simp [asString]

theorem lists_of_singletonOrArray {v : Value} {position : Option Position} {names : List String}
    (h : v.singletonOrArray position = .ok names) {name : String} (hname : name ∈ names) :
    v.Lists name := by
  cases v with
  | string text =>
    cases h
    exact (List.mem_singleton.mp hname).symm
  | array items =>
    cases h
    exact hname
  | map _ => cases h

end Value

namespace WorkflowDefinition

variable {b : Block} {d : WorkflowDefinition}

theorem position_of_ofBlock (h : ofBlock b = .ok d) : d.position = b.position := by
  obtain ⟨-, -, _, -, _, -, -, rfl⟩ := ofBlock_eq_ok_iff.mp h
  rfl

theorem exists_trigger_of_ofBlock (h : ofBlock b = .ok d) :
    ∃ pair ∈ b.pairs, pair.key = "on" ∧ pair.value = .string d.trigger := by
  obtain ⟨-, -, _, htrigger, _, -, -, rfl⟩ := ofBlock_eq_ok_iff.mp h
  obtain ⟨pair, hpair, hkey, hread⟩ := Block.exists_pair_of_required htrigger
  exact ⟨pair, hpair, hkey, Value.asString_eq_ok_iff.mp hread⟩

theorem refersTo_of_ofBlock (hkind : b.kind = Block.workflowKind) (h : ofBlock b = .ok d)
    {name : String} (hname : name ∈ d.resolves) : b.RefersTo name := by
  obtain ⟨-, -, _, -, _, hresolves, -, rfl⟩ := ofBlock_eq_ok_iff.mp h
  obtain ⟨pair, hpair, hkey, hread⟩ := Block.exists_pair_of_required hresolves
  have hreference : b.referenceKey = "resolves" := if_pos hkind
  exact ⟨pair, hpair, hkey.trans hreference.symm, Value.lists_of_singletonOrArray hread hname⟩

end WorkflowDefinition

namespace ActionDefinition

variable {b : Block} {d : ActionDefinition}

theorem name_of_ofBlock (h : ofBlock b = .ok d) : d.name = b.name := by
  obtain ⟨-, -, _, -, _, -, _, -, _, -, _, -, _, -, -, rfl⟩ := ofBlock_eq_ok_iff.mp h
  rfl

theorem position_of_ofBlock (h : ofBlock b = .ok d) : d.position = b.position := by
  obtain ⟨-, -, _, -, _, -, _, -, _, -, _, -, _, -, -, rfl⟩ := ofBlock_eq_ok_iff.mp h
  rfl

theorem refersTo_of_ofBlock (hkind : b.kind = Block.actionKind) (h : ofBlock b = .ok d)
    {name : String} (hname : name ∈ d.needs) : b.RefersTo name := by
  obtain ⟨-, -, _, -, needs, hneeds, _, -, _, -, _, -, _, -, -, rfl⟩ := ofBlock_eq_ok_iff.mp h
  cases needs with
  | none => cases hname
  | some needs =>
    obtain ⟨pair, hpair, hkey, hread⟩ := Block.exists_pair_of_optional hneeds
    have hreference : b.referenceKey = "needs" :=
      if_neg (hkind ▸ Block.workflowKind_ne_actionKind.symm)
    exact ⟨pair, hpair, hkey.trans hreference.symm, Value.lists_of_singletonOrArray hread hname⟩

end ActionDefinition

/-! ## Faults and their places -/

/-- The blocks are refused for a cause at a place of theirs, and the fault has its position. -/
def ReportsPlace (blocks : List Block) (fault : Fault) : Prop :=
  ∃ cause place, Blames blocks cause place ∧ place.IsIn blocks ∧
    fault = .atPosition cause place.position

variable {blocks : List Block} {ds : List Definition} {fault : Fault}

/-- What is wrong with a block is wrong with the file. -/
theorem reportsPlace_of_ofBlocks
    (hkinds : ∀ b ∈ blocks, b.kind = Block.workflowKind ∨ b.kind = Block.actionKind)
    (h : Definition.ofBlocks blocks = .error fault) : ReportsPlace blocks fault := by
  obtain ⟨before, b, after, rfl, -, hb⟩ := Definition.ofBlocks_eq_error_iff.mp h
  obtain ⟨cause, spot, hfaulty, hspot, rfl⟩ :=
    Definition.reports_of_ofBlock (hkinds b (by simp)) hb
  exact ⟨cause, ⟨before, b, spot⟩, .within hfaulty, ⟨⟨after, rfl⟩, hspot⟩, rfl⟩

section Defined

variable (hds : List.Forall₂ (fun b d => Definition.ofBlock b = .ok d) blocks ds)
include hds

/-- The names of actions are those of action blocks. -/
theorem mem_names_of_action {e : Block} (he : e ∈ blocks) (hkind : e.kind = Block.actionKind) :
    e.name ∈ Definition.defined ds := by
  have hnames : (blocks.filter (·.kind = Block.actionKind)).map (·.name)
      = Definition.defined ds := by
    refine map_eq_map_of_forall₂ (fun b d hd => ?_) (Definition.forall₂_actions hds)
    exact (ActionDefinition.name_of_ofBlock hd).symm
  rw [← hnames]
  exact List.mem_map_of_mem (List.mem_filter.mpr ⟨he, by simpa using hkind⟩)

theorem exists_block_of_mem_names {name : String}
    (h : name ∈ Definition.defined ds) :
    ∃ e ∈ blocks, e.kind = Block.actionKind ∧ e.name = name := by
  obtain ⟨d, hd, rfl⟩ := List.mem_map.mp h
  obtain ⟨e, he, hed⟩ := exists_of_mem_right (Definition.forall₂_actions hds) hd
  obtain ⟨hmem, hkind⟩ := List.mem_filter.mp he
  exact ⟨e, hmem, by simpa using hkind, (ActionDefinition.name_of_ofBlock hed).symm⟩

/-- An action that bears a name again comes of a block that has the name of an earlier one. -/
theorem reportsPlace_of_duplicate {before after : List Definition} {d : ActionDefinition}
    (hsplit : ds = before ++ .action d :: after)
    (hmem : d.name ∈ Definition.defined before) :
    ReportsPlace blocks (.atPosition (.duplicateAction d.name) d.position) := by
  subst hsplit
  obtain ⟨bs, b, rest, rfl, hbefore, hb⟩ := exists_split_of_forall₂ hds
  obtain ⟨hkind, hb⟩ := Definition.ofBlock_eq_action_iff.mp hb
  obtain ⟨e, he, hekind, hname⟩ := exists_block_of_mem_names hbefore hmem
  rw [ActionDefinition.name_of_ofBlock hb] at hname ⊢
  rw [ActionDefinition.position_of_ofBlock hb]
  exact ⟨_, ⟨bs, b, .head⟩, .duplicateAction hkind he hekind hname, ⟨⟨rest, rfl⟩, trivial⟩, rfl⟩

/-- A definition with which something is wrong comes of a block that is to blame. -/
theorem reportsPlace_of_mistakes {before after : List Definition} {d : Definition}
    (hsplit : ds = before ++ d :: after)
    (hbefore : inTurn (Definition.mistakes (Definition.defined ds)) [] before = [])
    (h : fault ∈ Definition.mistakes (Definition.defined ds) before d) :
    ReportsPlace blocks fault := by
  have hunknown {name : String} (hname : name ∉ Definition.defined ds) :
      ∀ e ∈ blocks, e.kind = Block.actionKind → e.name ≠ name := by
    rintro e he hekind rfl
    exact hname (mem_names_of_action hds he hekind)
  rw [hsplit] at hds
  obtain ⟨bs, b, rest, rfl, hbs, hb⟩ := exists_split_of_forall₂ hds
  have hplace : Place.IsIn (bs ++ b :: rest) ⟨bs, b, .head⟩ := ⟨⟨rest, rfl⟩, trivial⟩
  cases d with
  | workflow w =>
    obtain ⟨hkind, hb⟩ := Definition.ofBlock_eq_workflow_iff.mp hb
    rcases List.mem_append.mp h with hsecond | h
    · obtain ⟨hsome, hfault⟩ := List.mem_ite_nil_left.mp hsecond
      cases List.mem_singleton.mp hfault
      obtain ⟨w', hw'⟩ :=
        ((Definition.inTurn_mistakes_eq_nil_iff.mp hbefore).1.resolve_left hsome).2
      have hone : (bs.filter (·.kind = Block.workflowKind)).length = 1 := by
        rw [(Definition.forall₂_workflows hbs).length_eq, hw', List.length_singleton]
      rw [WorkflowDefinition.position_of_ofBlock hb]
      exact ⟨_, ⟨bs, b, .head⟩, .multipleWorkflows hkind hone, hplace, rfl⟩
    rcases List.mem_append.mp h with htrigger | hstray
    · obtain ⟨hne, hfault⟩ := List.mem_ite_nil_left.mp htrigger
      cases List.mem_singleton.mp hfault
      obtain ⟨pair, hpair, hkey, hvalue⟩ := WorkflowDefinition.exists_trigger_of_ofBlock hb
      rw [WorkflowDefinition.position_of_ofBlock hb]
      exact ⟨_, ⟨bs, b, .head⟩, .unknownTrigger hkind hpair hkey hvalue hne, hplace, rfl⟩
    · obtain ⟨name, hname, hnone, rfl⟩ := Definition.mem_strays.mp hstray
      have hrefers := WorkflowDefinition.refersTo_of_ofBlock hkind hb hname
      have hblames : Blames (bs ++ b :: rest) _ ⟨bs, b, .head⟩ :=
        .unknownAction hrefers (hunknown hnone)
      rw [hkind] at hblames
      rw [WorkflowDefinition.position_of_ofBlock hb, WorkflowDefinition.name_of_ofBlock hb]
      exact ⟨_, _, hblames, hplace, rfl⟩
  | action a =>
    obtain ⟨hkind, hb⟩ := Definition.ofBlock_eq_action_iff.mp hb
    obtain ⟨name, hname, hnone, rfl⟩ := Definition.mem_strays.mp h
    have hrefers := ActionDefinition.refersTo_of_ofBlock hkind hb hname
    have hblames : Blames (bs ++ b :: rest) _ ⟨bs, b, .head⟩ :=
      .unknownAction hrefers (hunknown hnone)
    rw [hkind] at hblames
    rw [ActionDefinition.position_of_ofBlock hb, ActionDefinition.name_of_ofBlock hb]
    exact ⟨_, _, hblames, hplace, rfl⟩

/-- Definitions that make up no workflow come of blocks one of which is to blame, or none of which
is a workflow. -/
theorem reportsPlace_of_ofDefinitions (h : Workflow.ofDefinitions ds = .error fault) :
    ReportsPlace blocks fault ∨
      (fault = .ofCause .missingWorkflow ∧ ∀ b ∈ blocks, b.kind ≠ Block.workflowKind) := by
  have hfirst := (Workflow.failsAsFirst_ofDefinitions ds fault).mp h
  rw [Definition.complaints, List.head?_append, Option.or_eq_some_iff] at hfirst
  rcases hfirst with hrepeats | ⟨-, hfirst⟩
  · obtain ⟨before, d, after, hsplit, -, hd⟩ := exists_split_of_head?_inTurn hrepeats
    cases d with
    | workflow w => cases hd
    | action a =>
      obtain ⟨hmem, hfault⟩ := List.mem_ite_nil_right.mp (List.mem_of_head? hd)
      cases List.mem_singleton.mp hfault
      exact .inl (reportsPlace_of_duplicate hds hsplit hmem)
  rw [List.head?_append, Option.or_eq_some_iff] at hfirst
  rcases hfirst with hmistakes | ⟨-, hmissing⟩
  · obtain ⟨before, d, after, hsplit, hbefore, hd⟩ := exists_split_of_head?_inTurn hmistakes
    exact .inl (reportsPlace_of_mistakes hds hsplit hbefore (List.mem_of_head? hd))
  · split at hmissing
    · next hnone =>
      cases hmissing
      have hworkflows := Definition.forall₂_workflows hds
      rw [hnone] at hworkflows
      have hfilter := List.filter_eq_nil_iff.mp (List.forall₂_nil_right_iff.mp hworkflows)
      exact .inr ⟨rfl, by simpa using hfilter⟩
    · cases hmissing

end Defined

/-! ## Texts -/

namespace Workflow

variable {text : String}

/-- A text is refused as blocks, or its blocks are as definitions, or these are as a workflow. -/
theorem ofText_eq_error_iff :
    ofText text = .error fault ↔ Block.ofText text = .error fault ∨
      ∃ blocks, Block.ofText text = .ok blocks ∧ (Definition.ofBlocks blocks = .error fault ∨
        ∃ ds, Definition.ofBlocks blocks = .ok ds ∧ ofDefinitions ds = .error fault) := by
  rw [ofText, bind_eq_error_iff]
  simp only [bind_eq_error_iff]

/-- **Every position points at the culprit.**  A text that makes up no workflow is refused at the
character or the token with which it stops being a workflow file; or it is one, and it is refused at
the token that stands where its blocks are to blame, or, without a position, because none of them is
a workflow. -/
theorem culprit_of_ofText (h : ofText text = .error fault) :
    (∃ why position, fault = .atPosition (.malformed why) position ∧
      MalformedAt text why position) ∨
    ∃ tokens finish blocks, scan text = ⟨tokens, .finished finish⟩ ∧ WritesFile tokens blocks ∧
      ((∃ cause place t offset, fault = .atPosition cause t.position ∧ Blames blocks cause place ∧
          place.IsIn blocks ∧ place.Names tokens t ∧ t.lexeme = .name place.word ∧
          t.StandsAt text.toList offset) ∨
        (fault = .ofCause .missingWorkflow ∧ ∀ b ∈ blocks, b.kind ≠ Block.workflowKind)) := by
  rcases ofText_eq_error_iff.mp h with hblocks | ⟨blocks, hblocks, hrest⟩
  · exact .inl (malformedAt_of_ofText hblocks)
  obtain ⟨tokens, finish, hscan, hread⟩ := Block.ofText_eq_ok_iff.mp hblocks
  have hwrites := writes_of_readBlocks hread
  refine .inr ⟨tokens, finish, blocks, hscan, hwrites, ?_⟩
  have hcases : ReportsPlace blocks fault ∨
      (fault = .ofCause .missingWorkflow ∧ ∀ b ∈ blocks, b.kind ≠ Block.workflowKind) := by
    rcases hrest with hdefine | ⟨ds, hds, hresolve⟩
    · exact .inl (reportsPlace_of_ofBlocks hwrites.kind_eq hdefine)
    · exact reportsPlace_of_ofDefinitions (Definition.forall₂_of_ofBlocks hds) hresolve
  refine hcases.imp_left ?_
  rintro ⟨cause, place, hblames, hplace, hfault⟩
  obtain ⟨t, hnames, rfl⟩ := Place.exists_names hwrites hplace
  have hmem := hnames.mem
  rw [← show (scan text).tokens = tokens from congrArg Scan.tokens hscan] at hmem
  obtain ⟨offset, hstands⟩ := exists_standsAt_of_mem_scan hmem
  exact ⟨cause, place, _, offset, hfault, hblames, hplace, hnames, rfl, hstands⟩

/-- The second block needs the third, and one that there is not. -/
def danglingText : String :=
  "workflow \"w\" \x7b on = \"push\" resolves = \"b\" \x7d
action \"b\" \x7b uses = \"docker://i\" needs = [\"a\", \"ghost\"] \x7d
action \"a\" \x7b uses = \"docker://i\" \x7d\n"

theorem ofText_danglingText :
    ofText danglingText = .error (.atPosition (.unknownAction "action b" "ghost") ⟨2, 1⟩) := by
  have hscan : scan danglingText = scan danglingText := rfl
  conv_rhs at hscan => cbv
  refine ofText_eq_error_iff.mpr (.inr ⟨?blocks, Block.ofText_eq_ok_iff.mpr ⟨_, _, hscan, ?read⟩,
    .inr ⟨?ds, ?define, ?resolve⟩⟩)
  case read =>
    rw [readBlocks_of_ok (by cbv), readBlocks_of_ok (by cbv), readBlocks_of_ok (by cbv), readBlocks]
    rfl
  case define =>
    cbv
    rfl
  case resolve => cbv

/-- The fault points at the word `action` of the second block. -/
theorem culprit_of_ofText_dangling :
    ∃ fault, ofText danglingText = .error fault ∧
      ((∃ why position, fault = .atPosition (.malformed why) position ∧
        MalformedAt danglingText why position) ∨
      ∃ tokens finish blocks, scan danglingText = ⟨tokens, .finished finish⟩ ∧
        WritesFile tokens blocks ∧
        ((∃ cause place t offset, fault = .atPosition cause t.position ∧
            Blames blocks cause place ∧ place.IsIn blocks ∧ place.Names tokens t ∧
            t.lexeme = .name place.word ∧ t.StandsAt danglingText.toList offset) ∨
          (fault = .ofCause .missingWorkflow ∧ ∀ b ∈ blocks, b.kind ≠ Block.workflowKind))) :=
  ⟨_, ofText_danglingText, culprit_of_ofText ofText_danglingText⟩

end Workflow

end ContainerFlow
