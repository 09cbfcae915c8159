/-
ContainerFlow.Workflow.Compile — from a text to a workflow.

A text is read as blocks, the blocks as definitions, the definitions as a workflow, and the workflow
is reviewed.  The first of these steps that fails stops.  Violations of the policy are reported as
they are found, so a failed review comes with its reports, and nothing else does.
-/
import ContainerFlow.Block.Read
import ContainerFlow.Policy
import ContainerFlow.Workflow.Resolve

namespace ContainerFlow

/-- What becomes of a text: a workflow or a fault, and the violations that were reported. -/
structure Compilation where
  result : Except Fault Workflow
  reported : List Policy.Violation

namespace Workflow

/-- The workflow that a text describes, not yet reviewed. -/
def ofText (text : String) : Except Fault Workflow := do
  let blocks ← Block.ofText text
  let definitions ← Definition.ofBlocks blocks
  ofDefinitions definitions

/-- The workflow that a text describes, once it has passed the review, and what those become who may
hear of the review. -/
def compileReporting {σ : Type} (sink? : Option (Policy.Sink σ)) (start : σ) (text : String) :
    Except Fault Workflow × Policy.Audience σ :=
  match ofText text with
  | .error fault => (.error fault, ⟨start, []⟩)
  | .ok w =>
    let (review, audience) := Policy.reviewReporting sink? start w
    (review.check.map fun _ => w, audience)

/-- The workflow that a text describes, with nobody to tell but the console. -/
def compile (text : String) : Compilation :=
  let (result, audience) := compileReporting (none : Option (Policy.Sink Unit)) () text
  ⟨result, audience.console⟩

end Workflow

end ContainerFlow
