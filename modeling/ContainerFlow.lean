import ContainerFlow.Main
import ContainerFlow.Proofs.Token.Spelling
import ContainerFlow.Proofs.Token.Cover
import ContainerFlow.Proofs.Schedule.Graph
import ContainerFlow.Proofs.Schedule.Recursion
import ContainerFlow.Proofs.Schedule.Consistency
import ContainerFlow.Proofs.Schedule.Simulation
import ContainerFlow.Proofs.Schedule.Order
import ContainerFlow.Proofs.Except
import ContainerFlow.Proofs.Resolve
import ContainerFlow.Proofs.Compile
import ContainerFlow.Proofs.Bindings
import ContainerFlow.Proofs.Run
import ContainerFlow.Proofs.CommandLine
import ContainerFlow.Proofs.Block.Grammar
import ContainerFlow.Proofs.Definition
import ContainerFlow.Proofs.Block.Spelling
import ContainerFlow.Proofs.Policy
import ContainerFlow.Proofs.Valid
import ContainerFlow.Proofs.Plan
import ContainerFlow.Proofs.Token.Writing
import ContainerFlow.Proofs.Block.Awaiting
import ContainerFlow.Proofs.Block.Viable
import ContainerFlow.Proofs.Block.Walk
import ContainerFlow.Proofs.Schedule.Traversal
import ContainerFlow.Proofs.Faults
import ContainerFlow.Proofs.Container
import ContainerFlow.Proofs.Path
import ContainerFlow.Proofs.Run.Stop
import ContainerFlow.Proofs.CommandLine.Exit
import ContainerFlow.Proofs.Culprit.Block
import ContainerFlow.Proofs.Culprit.Text
import ContainerFlow.Proofs.Culprit
import ContainerFlow.Proofs.Rearrange
import ContainerFlow.Proofs.CommandLine.Dry
import ContainerFlow.Proofs.FileTree
import ContainerFlow.Proofs.Scratch
import ContainerFlow.Proofs.Scratch.Copy
import ContainerFlow.Proofs.Complaints
import ContainerFlow.Proofs.Resolve.Complaints
import ContainerFlow.Proofs.Definition.Complaints
import ContainerFlow.Proofs.Container.Environment
import ContainerFlow.Proofs.Scratch.Release
import ContainerFlow.Proofs.CommandLine.Release
import ContainerFlow.Proofs.Definition.Reorder
import ContainerFlow.Proofs.Policy.Violations
import ContainerFlow.Proofs.Token.Filler
import ContainerFlow.Proofs.Moved
import ContainerFlow.Proofs.Block.Writing
import ContainerFlow.Proofs.Layout
import ContainerFlow.Proofs.Schedule.Stable
import ContainerFlow.Proofs.Schedule.Sorted
import ContainerFlow.Proofs.Json.Grammar
import ContainerFlow.Proofs.Json.Writing
import ContainerFlow.Proofs.Plan.Json
import ContainerFlow.Proofs.Text.Words
import ContainerFlow.Proofs.Definition.Words
import ContainerFlow.Proofs.Text.LineEnding
import ContainerFlow.Proofs.Text.Utf8
import ContainerFlow.Proofs.WorkflowFile
import ContainerFlow.Proofs.CommandLine.Debug
import ContainerFlow.Proofs.NameTable
import ContainerFlow.Proofs.Schedule.Step
import ContainerFlow.Proofs.Schedule.Operations
import ContainerFlow.Proofs.Schedule.Exploration
import ContainerFlow.Proofs.Schedule.Effort
