/-
ContainerFlow.Proofs.Valid — what is true of every compiled workflow.

A text comes to a workflow in steps, and each of them refuses something:
the scanner what is not written as a name, the resolver names that two
actions bear or that no action bears and any number of workflows other
than one, the review what the service does not allow.  `Workflow.Valid`
is what is left when none of them has refused, in terms of the workflow
alone.
-/
import Mathlib
import ContainerFlow.Proofs.Compile
import ContainerFlow.Proofs.Block.Spelling
import ContainerFlow.Proofs.Definition
import ContainerFlow.Proofs.Policy

namespace ContainerFlow.Workflow

/-- What may be taken for granted of a compiled workflow. -/
structure Valid (w : Workflow) : Prop where
  /-- No two actions have the same name. -/
  distinct : (w.actions.map (·.name)).Nodup
  /-- What the workflow and its actions refer to is there. -/
  inRange : w.InRange
  /-- Words that are declared are not left empty. -/
  words : ∀ a ∈ w.actions, a.runs ≠ some [] ∧ a.args ≠ some []
  /-- No variable is bound twice in an action. -/
  distinctNames : ∀ a ∈ w.actions, a.env.names.Nodup
  /-- Variables have names, and none that is kept for the service. -/
  names : ∀ a ∈ w.actions, ∀ name ∈ a.env.names,
    IsName name.toList ∧ ¬ "GITHUB_".toList <+: name.toList
  /-- The actions together use no more than a hundred different secrets. -/
  secrets : (w.actions.flatMap (·.secrets)).toFinset.card ≤ 100

variable {text : String} {w : Workflow} {ds : List Definition} {blocks : List Block}

/-! ## From the resolver -/

theorem distinct_of_ofDefinitions (h : ofDefinitions ds = .ok w) :
    (w.actions.map (·.name)).Nodup := by
  obtain ⟨t, -, -, hnames, hactions, -⟩ := resolved_of_ofDefinitions h
  rw [map_name_of_resolve hactions, ← hnames]
  exact t.distinct

/-- There is one workflow block, and the workflow has its name. -/
theorem exists_block_of_ofDefinitions (hds : Definition.ofBlocks blocks = .ok ds)
    (h : ofDefinitions ds = .ok w) :
    ∃ b, blocks.filter (·.kind = Block.workflowKind) = [b] ∧ b.name = w.name := by
  obtain ⟨_, d, head, -, -, hworkflow, hhead, hw⟩ := resolved_of_ofDefinitions h
  have hblocks := Definition.forall₂_workflows (Definition.forall₂_of_ofBlocks hds)
  rw [hworkflow] at hblocks
  obtain ⟨b, rest, hb, hrest, hfilter⟩ := List.forall₂_cons_right_iff.mp hblocks
  cases List.forall₂_nil_right_iff.mp hrest
  refine ⟨b, hfilter, ?_⟩
  rw [hw, (WorkflowDefinition.eq_of_resolve hhead).1, WorkflowDefinition.name_of_ofBlock hb]

/-! ## From the blocks -/

/-- The variables of an action have names. -/
theorem isName_of_ofDefinitions (hblocks : ∀ b ∈ blocks, b.Spelled)
    (hds : Definition.ofBlocks blocks = .ok ds) (h : ofDefinitions ds = .ok w) :
    ∀ a ∈ w.actions, ∀ name ∈ a.env.names, IsName name.toList := by
  intro a ha name hname
  obtain ⟨_, -, -, -, hactions, -⟩ := resolved_of_ofDefinitions h
  obtain ⟨d, hd, hda⟩ := exists_of_mem_right hactions ha
  have hfrom := Definition.forall₂_actions (Definition.forall₂_of_ofBlocks hds)
  obtain ⟨b, hb, hbd⟩ := exists_of_mem_right hfrom hd
  rw [ActionDefinition.eq_of_resolve hda] at hname
  rcases ActionDefinition.env_of_ofBlock hbd with hempty | ⟨pair, hpair, hvalue⟩
  · rw [hempty] at hname
    cases hname
  · have hspelled := (hblocks b (List.mem_of_mem_filter hb)).pairs pair hpair
    have hentries : (Value.map d.env).Spelled := hvalue ▸ hspelled.value
    obtain ⟨entry, hentry, rfl⟩ := List.mem_map.mp hname
    exact (hentries entry hentry).1

/-! ## From a text -/

theorem isName_of_compile (h : (compile text).result = .ok w) :
    ∀ a ∈ w.actions, ∀ name ∈ a.env.names, IsName name.toList := by
  obtain ⟨htext, -⟩ := compile_eq_ok_iff.mp h
  obtain ⟨blocks, ds, hblocks, hds, hw⟩ := ofText_eq_ok_iff.mp htext
  exact isName_of_ofDefinitions (spelled_of_ofText hblocks) hds hw

theorem words_ne_nil_of_compile (h : (compile text).result = .ok w) :
    ∀ a ∈ w.actions, a.runs ≠ some [] ∧ a.args ≠ some [] := by
  obtain ⟨-, hnone⟩ := compile_eq_ok_iff.mp h
  exact Policy.wordsFound_eq_nil_iff.mp (Policy.allFound_eq_nil_iff.mp hnone).2.2

/-! ## A small release -/

/-- An action that needs one further down and declares a variable and a secret. -/
def releaseText : String :=
  "action \"ship\" \x7b uses = \"docker://i\" needs = \"make\"
  env = \x7b MODE-2 = \"fast\" \x7d secrets = [\"KEY\"] \x7d
workflow \"release\" \x7b on = \"push\" resolves = \"ship\" \x7d
action \"make\" \x7b uses = \"docker://i\" runs = \"make all\" args = [\"-j\"] \x7d\n"

def release : Workflow where
  name := "release"
  trigger := .push
  depends := [0]
  actions :=
    [⟨"ship", "docker://i", none, none, [1], .ofList [("MODE-2", "fast")], ["KEY"]⟩,
      ⟨"make", "docker://i", some ["make", "all"], some ["-j"], [], .empty, []⟩]

theorem compile_releaseText : (compile releaseText).result = .ok release := by
  -- Tokens, blocks and definitions are evaluated and not written out.
  have hscan : scan releaseText = scan releaseText := rfl
  conv_rhs at hscan => cbv
  refine compile_of_steps ?blocks ?ds hscan ?read ?define ?resolve (by cbv)
  case read =>
    rw [readBlocks_of_ok (by cbv), readBlocks_of_ok (by cbv), readBlocks_of_ok (by cbv), readBlocks]
    rfl
  case define =>
    cbv
    rfl
  case resolve => cbv

/-! ## Main result -/

/-- **What is compiled is valid**, whatever the text: the text has one workflow, which the compiled
one is, and the compiled one may be taken to be as `Valid` says. -/
theorem valid_of_compile (h : (compile text).result = .ok w) :
    w.Valid ∧ ∃ blocks b, Block.ofText text = .ok blocks ∧
      blocks.filter (·.kind = Block.workflowKind) = [b] ∧ b.name = w.name := by
  obtain ⟨htext, hnone⟩ := compile_eq_ok_iff.mp h
  obtain ⟨blocks, ds, hblocks, hds, hw⟩ := ofText_eq_ok_iff.mp htext
  obtain ⟨hreserved, hsecrets, hwords⟩ := Policy.allFound_eq_nil_iff.mp hnone
  refine ⟨?_, blocks, ?_⟩
  · constructor
    case distinct => exact distinct_of_ofDefinitions hw
    case inRange => exact inRange_of_ofDefinitions hw
    case words => exact Policy.wordsFound_eq_nil_iff.mp hwords
    case distinctNames => exact fun a _ => a.env.distinct
    case names =>
      intro a ha name hname
      exact ⟨isName_of_ofDefinitions (spelled_of_ofText hblocks) hds hw a ha name hname,
        Policy.namesFound_eq_nil_iff.mp hreserved a ha name hname⟩
    case secrets => exact Policy.secretsFound_eq_nil_iff.mp hsecrets
  · obtain ⟨b, hb, hname⟩ := exists_block_of_ofDefinitions hds hw
    exact ⟨b, hblocks, hb, hname⟩

/-- With a variable, a secret, words in both spellings, and a need further down. -/
theorem valid_of_compile_release :
    (compile releaseText).result = .ok release ∧
    release.Valid ∧ ∃ blocks b, Block.ofText releaseText = .ok blocks ∧
      blocks.filter (·.kind = Block.workflowKind) = [b] ∧ b.name = release.name :=
  ⟨compile_releaseText, valid_of_compile compile_releaseText⟩

end ContainerFlow.Workflow
