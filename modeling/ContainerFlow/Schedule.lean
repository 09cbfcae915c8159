/-
ContainerFlow.Schedule — the order in which actions run.

The order in which the actions of a workflow run: every action once, after all the actions that it
needs.  Where that leaves a choice, actions come in the order of the file, and the needs of an
action in the order in which they are written.  Actions that need one another in a loop have no
order; the first loop that is met is reported.
-/
import ContainerFlow.Schedule.Traversal
import ContainerFlow.Workflow

namespace ContainerFlow

/-- An order of all nodes of a graph with every node after the nodes that it needs, or else the
nodes of a loop; `none` when a look-up on the way leads to nothing. -/
def Graph.order? (g : Graph) : Option (Except (List Nat) (List Nat)) :=
  match (Traversal.start g).visitAll (List.range g.size) with
  | some (last, none) => some (.ok last.order.toList)
  | some (_, some nodes) => some (.error nodes)
  | none => none

/-- The order of a graph, or the nodes of a loop.  A look-up that leads to nothing counts as a loop
without nodes. -/
def Graph.order (g : Graph) : Except (List Nat) (List Nat) := g.order?.getD (.error [])

namespace Workflow

/-- The needs of the actions by number. -/
def graph (w : Workflow) : Graph := ⟨(w.actions.map (·.needs)).toArray⟩

/-- The report of a loop of actions. -/
def cycleFault (w : Workflow) (nodes : List Nat) : Fault :=
  match w.namesOf nodes with
  | .ok (first :: rest) => .ofCause (.cycle first rest)
  | .ok [] => .defect .emptyCycle
  | .error fault => fault

/-- The numbers of the actions in the order in which they run. -/
def order (w : Workflow) : Except Fault (List Nat) :=
  match w.graph.order with
  | .ok ids => .ok ids
  | .error nodes => .error (w.cycleFault nodes)

end Workflow

end ContainerFlow
