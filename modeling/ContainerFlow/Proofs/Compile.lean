/-
ContainerFlow.Proofs.Compile — from a text, or a file, to a workflow.

A workflow that is compiled has been resolved from definitions, so what
holds of all resolved workflows holds of it: its references are to
actions that it has (`inRange_of_compile`, `inRange_of_load`).

A file that holds a text without carriage returns is compiled as that
text (`load_of_text`).
-/
import Mathlib
import ContainerFlow.Proofs.Policy
import ContainerFlow.Proofs.Resolve
import ContainerFlow.Proofs.Text.Utf8
import ContainerFlow.WorkflowFile

namespace ContainerFlow

/-! ## Texts -/

/-- The blocks of a file are its first block and those after it. -/
theorem readBlocks_cons (t : Token) (rest : List Token) :
    readBlocks (t :: rest) =
      Except.bind (readBlock (t :: rest)) fun (b, left) => (readBlocks left).map (b :: ·) := by
  rw [readBlocks]
  split
  · next b left hblock =>
    rw [hblock]
    show _ = (readBlocks left).map _
    cases readBlocks left <;> rfl
  · next hblock =>
    rw [hblock]
    rfl

theorem readBlocks_of_ok {tokens left : List Token} {block : Block}
    (h : readBlock tokens = .ok (block, left)) :
    readBlocks tokens = (readBlocks left).map (block :: ·) := by
  cases tokens with
  | nil => cases h
  | cons token rest =>
    rw [readBlocks_cons, h]
    rfl

theorem Block.ofTokens_eq_ok_iff {tokens : List Token} {finish : Position} {blocks : List Block} :
    Block.ofTokens tokens finish = .ok blocks ↔ readBlocks tokens = .ok blocks := by
  unfold Block.ofTokens
  split <;> simp_all

/-- A text is read as blocks when all of it is tokens and these are blocks. -/
theorem Block.ofText_eq_ok_iff {text : String} {blocks : List Block} :
    Block.ofText text = .ok blocks ↔
      ∃ tokens finish, scan text = ⟨tokens, .finished finish⟩ ∧ readBlocks tokens = .ok blocks := by
  unfold Block.ofText
  split <;> simp_all [Block.ofTokens_eq_ok_iff]

theorem Policy.Review.map_check_eq_ok_iff {α : Type} {r : Policy.Review} {a b : α} :
    (r.check.map fun _ => a) = .ok b ↔ r.passes ∧ a = b := by
  unfold Policy.Review.check
  split <;> simp_all [Except.map]

namespace Workflow

variable {text : String} {w : Workflow}

theorem ofText_eq_ok_iff :
    ofText text = .ok w ↔ ∃ blocks ds, Block.ofText text = .ok blocks ∧
      Definition.ofBlocks blocks = .ok ds ∧ ofDefinitions ds = .ok w := by
  rw [ofText, bind_eq_ok_iff]
  simp only [bind_eq_ok_iff, exists_and_left]

/-- A text is compiled to the workflow that it describes, when the review of this finds nothing. -/
theorem compile_eq_ok_iff :
    (compile text).result = .ok w ↔ ofText text = .ok w ∧ Policy.allFound w = [] := by
  rw [compile, compileReporting]
  cases ofText text with
  | error fault => simp
  | ok found =>
    show ((Policy.review found).check.map fun _ => found) = .ok w ↔ _
    rw [Policy.Review.map_check_eq_ok_iff, Policy.passes_review_iff, Except.ok.injEq, and_comm]
    exact and_congr_right fun heq => by rw [heq]

/-- A text is compiled when every step does its part. -/
theorem compile_of_steps {tokens : List Token} {finish : Position} (blocks : List Block)
    (ds : List Definition) (hscan : scan text = ⟨tokens, .finished finish⟩)
    (hread : readBlocks tokens = .ok blocks) (hds : Definition.ofBlocks blocks = .ok ds)
    (hw : ofDefinitions ds = .ok w)
    (hnone : Policy.allFound w = []) :
    (compile text).result = .ok w := by
  have hblocks := Block.ofText_eq_ok_iff.mpr ⟨tokens, finish, hscan, hread⟩
  exact compile_eq_ok_iff.mpr ⟨ofText_eq_ok_iff.mpr ⟨blocks, ds, hblocks, hds, hw⟩, hnone⟩

/-- Every reference of a compiled workflow is to an action that it has. -/
theorem inRange_of_compile (h : (compile text).result = .ok w) : w.InRange := by
  obtain ⟨blocks, ds, -, -, hds⟩ := ofText_eq_ok_iff.mp (compile_eq_ok_iff.mp h).1
  exact inRange_of_ofDefinitions hds

end Workflow

/-! ## Files -/

namespace WorkflowFile

variable {v : View} {path place : String} {sys : System} {w : Workflow}

/-- A workflow that is loaded has been compiled. -/
theorem exists_compile_of_load (h : (load v path place sys).result = .ok w) :
    ∃ text, (Workflow.compile text).result = .ok w := by
  unfold load at h
  split at h
  · cases h
  · split at h
    · cases h
    · next text _ => exact ⟨text, h⟩

theorem inRange_of_load (h : (load v path place sys).result = .ok w) : w.InRange := by
  obtain ⟨text, htext⟩ := exists_compile_of_load h
  exact Workflow.inRange_of_compile htext

/-- A text is read with its line endings made one. -/
theorem textOf_toUTF8 (p : Path) (text : String) :
    textOf p text.toUTF8 = .ok (String.ofList (Text.unifyLineEndings text.toList)) := by
  rw [textOf, Text.decodeUtf8_toUTF8]

/-- What is read of the file that is found is compiled. -/
theorem load_of_textOf {p : Path} {content : ByteArray} {text : String}
    (hfind : find v path place = .ok (p, content)) (hread : sys.readError? p = none)
    (htext : textOf p content = .ok text) : load v path place sys = Workflow.compile text := by
  simp only [load, hfind, read, hread, htext]

theorem load_of_text {p : Path} {text : String} (hfind : find v path place = .ok (p, text.toUTF8))
    (hread : sys.readError? p = none) (hreturn : '\r' ∉ text.toList) :
    load v path place sys = Workflow.compile text := by
  refine load_of_textOf hfind hread ?_
  rw [textOf_toUTF8, Text.unifyLineEndings_of_notMem hreturn, String.ofList_toList]

end WorkflowFile

/-! ## A small workflow -/

/-- Three actions, each of which needs the one below it. -/
def pipelineText : String :=
  "workflow \"ci\" \x7b on = \"push\" resolves = \"c\" \x7d
action \"c\" \x7b uses = \"docker://i\" needs = \"b\" \x7d
action \"b\" \x7b uses = \"docker://i\" needs = \"a\" \x7d
action \"a\" \x7b uses = \"docker://i\" \x7d\n"

def pipelineBlocks : List Block :=
  [⟨"workflow", "ci", ⟨1, 1⟩,
      [⟨"on", .string "push", ⟨1, 17⟩⟩, ⟨"resolves", .string "c", ⟨1, 29⟩⟩]⟩,
    ⟨"action", "c", ⟨2, 1⟩,
      [⟨"uses", .string "docker://i", ⟨2, 14⟩⟩, ⟨"needs", .string "b", ⟨2, 34⟩⟩]⟩,
    ⟨"action", "b", ⟨3, 1⟩,
      [⟨"uses", .string "docker://i", ⟨3, 14⟩⟩, ⟨"needs", .string "a", ⟨3, 34⟩⟩]⟩,
    ⟨"action", "a", ⟨4, 1⟩, [⟨"uses", .string "docker://i", ⟨4, 14⟩⟩]⟩]

def pipeline : Workflow where
  name := "ci"
  trigger := .push
  depends := [0]
  actions :=
    [⟨"c", "docker://i", none, none, [1], .empty, []⟩,
      ⟨"b", "docker://i", none, none, [2], .empty, []⟩,
      ⟨"a", "docker://i", none, none, [], .empty, []⟩]

theorem blocks_pipelineText : Block.ofText pipelineText = .ok pipelineBlocks := by
  -- The tokens are evaluated and not written out.
  have hscan : scan pipelineText = scan pipelineText := rfl
  conv_rhs at hscan => cbv
  refine Block.ofText_eq_ok_iff.mpr ⟨_, _, hscan, ?_⟩
  rw [readBlocks_of_ok (by cbv), readBlocks_of_ok (by cbv), readBlocks_of_ok (by cbv),
    readBlocks_of_ok (by cbv), readBlocks]
  rfl

theorem compile_pipelineText : (Workflow.compile pipelineText).result = .ok pipeline := by
  have hds : Definition.ofBlocks pipelineBlocks = Definition.ofBlocks pipelineBlocks := rfl
  conv_rhs at hds => cbv
  have htext : Workflow.ofText pipelineText = .ok pipeline :=
    Workflow.ofText_eq_ok_iff.mpr ⟨_, _, blocks_pipelineText, hds, by cbv⟩
  exact Workflow.compile_eq_ok_iff.mpr ⟨htext, by cbv⟩

end ContainerFlow
