/-
ContainerFlow.Schedule.Traversal — a search kept in parallel lists.

The scheduler searches with two lists that have an entry for every node, its state and its place on
the stack, and three that grow and shrink: the stack, the next need to follow for every node on it,
and the order of the nodes that are done.  Nothing but the operations keeps these five in step with
one another.

A look-up past the end of a list stops an operation, which then comes to `none`.  The place of a
node that is not on the stack is -1, and -1 as the start of a slice means the last entry.

* `measure_step`: every step uses up unvisited nodes, the stack, or needs of the node on top of it.
-/
import ContainerFlow.Schedule.Search

namespace ContainerFlow

/-- How far a traversal has come with a node. -/
inductive Visit where
  | unvisited
  | inProgress
  | done
  deriving DecidableEq, Repr

/-- A depth first search under way. -/
@[ext]
structure Traversal where
  graph : Graph
  state : Array Visit
  /-- The places of the nodes on the stack, and -1 for all others. -/
  position : Array Int
  /-- The nodes in progress, the innermost last. -/
  stack : Array Nat
  /-- For each node on the stack, which of its needs is to be followed next. -/
  cursor : Array Nat
  /-- The nodes that are done, in the order in which they were done. -/
  order : Array Nat
  size_state : state.size = graph.size
  size_position : position.size = graph.size
  deriving DecidableEq, Repr

namespace Traversal

/-- What stands for the place of a node that is not on the stack. -/
def noPosition : Int := -1

/-- A traversal that has not begun. -/
def start (g : Graph) : Traversal where
  graph := g
  state := Array.replicate g.size .unvisited
  position := Array.replicate g.size noPosition
  stack := #[]
  cursor := #[]
  order := #[]
  size_state := Array.size_replicate
  size_position := Array.size_replicate

/-- Sets the state and the place of a node, if the graph has it. -/
def setNode (t : Traversal) (node : Nat) (v : Visit) (place : Int) : Traversal :=
  { t with
    state := t.state.setIfInBounds node v
    position := t.position.setIfInBounds node place
    size_state := by rw [Array.size_setIfInBounds, t.size_state]
    size_position := by rw [Array.size_setIfInBounds, t.size_position] }

/-- Puts a node on top of the stack. -/
def push (t : Traversal) (node : Nat) : Option Traversal :=
  if node < t.graph.size then
    some { t.setNode node .inProgress t.stack.size with
      stack := t.stack.push node
      cursor := t.cursor.push 0 }
  else none

/-- Takes the node on top off the stack: it is done. -/
def pop (t : Traversal) : Except Fault Traversal :=
  match t.stack.back?, t.cursor.back? with
  | some node, some _ =>
    .ok { t.setNode node .done noPosition with
      stack := t.stack.pop
      cursor := t.cursor.pop
      order := t.order.push node }
  | _, _ => .error (.defect .noOpenNode)

/-- The items from a place on; a place below zero is counted from the end. -/
def sliceFrom (nodes : List Nat) (place : Int) : List Nat :=
  if place < 0 then nodes.drop (nodes.length + place).toNat else nodes.drop place.toNat

/-- The part of the stack from the place of a node on. -/
def cycleFrom (t : Traversal) (node : Nat) : Option (List Nat) :=
  t.position[node]?.map (sliceFrom t.stack.toList)

/-- Moves the cursor on top to this place. -/
def moveCursor (t : Traversal) (place : Nat) : Traversal :=
  { t with cursor := t.cursor.pop.push place }

/-! ## Visits -/

/-- What a step of a visit comes to. -/
inductive Progress where
  /-- There is more to do. -/
  | running (next : Traversal)
  /-- The stack is as high as it was before. -/
  | settled
  /-- A need of the node on top is in progress: the nodes of the cycle. -/
  | looped (next : Traversal) (nodes : List Nat)
  deriving DecidableEq, Repr

/-- One step of working the stack off down to `base` nodes. -/
def step (base : Nat) (t : Traversal) : Option Progress :=
  if t.stack.size ≤ base then some .settled
  else do
    let top ← t.stack.back?
    let edges ← t.graph.needs[top]?
    let i ← t.cursor.back?
    if i = edges.length then
      return .running (← t.pop.toOption)
    else
      let next := t.moveCursor (i + 1)
      let need ← edges[i]?
      match ← next.state[need]? with
      | .done => return .running next
      | .inProgress => return .looped next (← next.cycleFrom need)
      | .unvisited => return .running (← next.push need)

/-! ## Why visits end -/

/-- How many nodes are unvisited. -/
def unvisitedCount (t : Traversal) : Nat := t.state.toList.countP (· = .unvisited)

/-- How many needs of the node on top are still to be followed. -/
def dueOnTop (t : Traversal) : Nat :=
  (t.graph.needsOf (t.stack.back?.getD 0)).length - t.cursor.back?.getD 0

theorem unvisitedCount_setNode_le (t : Traversal) (node : Nat) {v : Visit} (hv : v ≠ .unvisited)
    (place : Int) : (t.setNode node v place).unvisitedCount ≤ t.unvisitedCount := by
  show (t.state.setIfInBounds node v).toList.countP _ ≤ t.state.toList.countP _
  rw [Array.toList_setIfInBounds]
  by_cases h : node < t.state.toList.length
  · rw [List.countP_set h]
    simp [hv]
  · exact Nat.le_of_eq (congrArg _ (List.set_eq_of_length_le (by omega)))

theorem unvisitedCount_setNode_lt (t : Traversal) {node : Nat} {v : Visit} (hv : v ≠ .unvisited)
    (place : Int) (hn : t.state[node]? = some .unvisited) :
    (t.setNode node v place).unvisitedCount < t.unvisitedCount := by
  show (t.state.setIfInBounds node v).toList.countP _ < t.state.toList.countP _
  obtain ⟨h, hs⟩ := Array.getElem?_eq_some_iff.1 hn
  rw [Array.toList_setIfInBounds, List.countP_set (by simpa using h)]
  have hpos : 0 < t.state.toList.countP (· = Visit.unvisited) :=
    List.countP_pos_iff.2 ⟨.unvisited, by rw [← hs]; simp, by simp⟩
  simp only [Array.getElem_toList, hs, hv, decide_true, decide_false, if_true, Bool.false_eq_true,
    if_false]
  omega

/-- Taking a node off leaves a lower stack, and no more nodes unvisited. -/
theorem measure_pop {t next : Traversal} (h : t.pop.toOption = some next) :
    next.unvisitedCount ≤ t.unvisitedCount ∧ next.stack.size < t.stack.size := by
  unfold pop at h
  split at h
  · next node _ hnode _ =>
    cases h
    have hsize : 0 < t.stack.size := by
      obtain ⟨hlt, -⟩ := Array.getElem?_eq_some_iff.1 hnode
      omega
    refine ⟨unvisitedCount_setNode_le t node (by simp) noPosition, ?_⟩
    simp only [Array.size_pop]
    omega
  · cases h

/-- Putting an unvisited node on leaves fewer nodes unvisited. -/
theorem measure_push {t next : Traversal} {node : Nat} (h : t.push node = some next)
    (hnode : t.state[node]? = some .unvisited) : next.unvisitedCount < t.unvisitedCount := by
  unfold push at h
  split at h
  · cases h
    exact unvisitedCount_setNode_lt t (by simp) t.stack.size hnode
  · cases h

/-- Moving the cursor on top on leaves fewer needs due, if there was one due. -/
theorem dueOnTop_moveCursor_lt {t : Traversal} {top i : Nat} {edges : List Nat}
    (htop : t.stack.back? = some top) (hedges : t.graph.needs[top]? = some edges)
    (hi : t.cursor.back? = some i) (hlt : i < edges.length) :
    (t.moveCursor (i + 1)).dueOnTop < t.dueOnTop := by
  have hneeds : t.graph.needsOf top = edges := by rw [Graph.needsOf, hedges, Option.getD_some]
  simp only [dueOnTop, moveCursor, htop, hi, Array.back?_push, Option.getD_some, hneeds]
  omega

/-- Every step uses up unvisited nodes or, these being as many as before, the stack or, this being
as high as before, needs of the node on top. -/
theorem measure_step {base : Nat} {t next : Traversal} (h : t.step base = some (.running next)) :
    next.unvisitedCount < t.unvisitedCount ∨
      next.unvisitedCount ≤ t.unvisitedCount ∧
        (next.stack.size < t.stack.size ∨
          next.stack.size = t.stack.size ∧ next.dueOnTop < t.dueOnTop) := by
  unfold step at h
  split at h
  · cases h
  obtain ⟨top, htop, h⟩ := Option.bind_eq_some_iff.1 h
  obtain ⟨edges, hedges, h⟩ := Option.bind_eq_some_iff.1 h
  obtain ⟨i, hi, h⟩ := Option.bind_eq_some_iff.1 h
  split at h
  · obtain ⟨popped, hpopped, h⟩ := Option.bind_eq_some_iff.1 h
    cases h
    obtain ⟨hcount, hsize⟩ := measure_pop hpopped
    exact .inr ⟨hcount, .inl hsize⟩
  · obtain ⟨need, hneed, h⟩ := Option.bind_eq_some_iff.1 h
    obtain ⟨v, hv, h⟩ := Option.bind_eq_some_iff.1 h
    obtain ⟨hlt, -⟩ := List.getElem?_eq_some_iff.1 hneed
    cases v with
    | done =>
      cases h
      exact .inr ⟨Nat.le_refl _, .inr ⟨rfl, dueOnTop_moveCursor_lt htop hedges hi hlt⟩⟩
    | inProgress =>
      obtain ⟨nodes, hnodes, h⟩ := Option.bind_eq_some_iff.1 h
      cases h
    | unvisited =>
      obtain ⟨opened, hopened, h⟩ := Option.bind_eq_some_iff.1 h
      cases h
      exact .inl (measure_push (t := t.moveCursor (i + 1)) hopened hv)

/-! ## Whole visits -/

/-- Works the stack off down to `base` nodes, or up to the first cycle. -/
def settle (base : Nat) (t : Traversal) : Option (Traversal × Option (List Nat)) :=
  match _h : t.step base with
  | none => none
  | some .settled => some (t, none)
  | some (.looped next nodes) => some (next, some nodes)
  | some (.running next) => next.settle base
termination_by (t.unvisitedCount, t.stack.size, t.dueOnTop)
decreasing_by
  rcases measure_step _h with hlt | ⟨hle, hrest⟩
  · exact .left _ _ hlt
  · rcases Nat.lt_or_eq_of_le hle with hlt' | heq
    · exact .left _ _ hlt'
    · rw [heq]
      rcases hrest with hlow | ⟨hsize, hdue⟩
      · exact .right _ (.left _ _ hlow)
      · rw [hsize]
        exact .right _ (.right _ hdue)

/-- Puts a node on the stack and works off all that it leads to: the nodes of a cycle, if there is
one. -/
def visit (t : Traversal) (root : Nat) : Option (Traversal × Option (List Nat)) := do
  let opened ← t.push root
  opened.settle t.stack.size

/-- Visits those of `roots` that are unvisited when their turn comes. -/
def visitAll (t : Traversal) : List Nat → Option (Traversal × Option (List Nat))
  | [] => some (t, none)
  | root :: rest => do
    match ← t.state[root]? with
    | .unvisited =>
      match ← t.visit root with
      | (next, none) => next.visitAll rest
      | (next, some nodes) => some (next, some nodes)
    | .inProgress | .done => t.visitAll rest

end Traversal

end ContainerFlow
