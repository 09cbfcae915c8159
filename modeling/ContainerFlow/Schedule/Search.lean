/-
ContainerFlow.Schedule.Search — depth first searches of a graph.

A depth first search with a stack of its own.  A node is unvisited, open while it is on the stack,
or finished.  A step looks at the innermost open node: when all its needs have been followed, the
node is finished; otherwise its next need is followed, which opens a node, or passes over a finished
one, or runs into an open one and has found a loop.

Searches may be taken up in any state: `settle` works off the stack down to a given height and never
looks at what lies below.

Here everything that belongs to a node or to a frame is kept together, which is how a search is
reasoned about.  The scheduler keeps it in parallel lists (`ContainerFlow.Schedule.Traversal`).

* `measure_step`: every step uses up unvisited nodes or pending needs, so searches end.
-/
import ContainerFlow.Fault

namespace ContainerFlow

/-! ## Graphs -/

/-- For every node, the nodes that it needs, in the order in which they are to be followed. -/
structure Graph where
  needs : Array (List Nat)
  deriving DecidableEq, Repr

namespace Graph

/-- How many nodes there are. -/
def size (g : Graph) : Nat := g.needs.size

/-- The nodes that a node needs. -/
def needsOf (g : Graph) (node : Nat) : List Nat := g.needs[node]?.getD []

/-- How many needs there are, repeated ones counted as often as they stand there. -/
def edgeCount (g : Graph) : Nat :=
  g.needs.toList.foldr (fun needs n => needs.length + n) 0

/-- Whether all needs are nodes of the graph. -/
def InRange (g : Graph) : Prop := ∀ node, ∀ need ∈ g.needsOf node, need < g.size

end Graph

/-! ## The state of a search -/

/-- How far the search has come with a node. -/
inductive Mark where
  | unvisited
  /-- The node is on the stack, with this many nodes below it. -/
  | onStack (height : Nat)
  | finished
  deriving DecidableEq, Repr

/-- An open node, and how many of its needs have been followed. -/
structure Frame where
  node : Nat
  cursor : Nat
  deriving DecidableEq, Repr

/-- A search under way. -/
structure Search where
  graph : Graph
  marks : Array Mark
  /-- The open nodes, the innermost first. -/
  frames : List Frame
  /-- The finished nodes, the last one first. -/
  finished : List Nat
  /-- Every node of the graph has its mark, and nothing else has one. -/
  sized : marks.size = graph.size
  deriving DecidableEq, Repr

namespace Search

/-- A search that has not begun. -/
def start (g : Graph) : Search :=
  ⟨g, Array.replicate g.size .unvisited, [], [], Array.size_replicate⟩

/-- How far the search has come with a node. -/
def mark (s : Search) (node : Nat) : Mark := s.marks[node]?.getD .unvisited

/-- The open nodes, the outermost first. -/
def stack (s : Search) : List Nat := (s.frames.map Frame.node).reverse

/-- How many needs have been followed of each open node, the outermost first. -/
def cursors (s : Search) : List Nat := (s.frames.map Frame.cursor).reverse

/-- The finished nodes, in the order in which they were finished. -/
def order (s : Search) : List Nat := s.finished.reverse

/-- The height at which a node lies on the stack, if it is open. -/
def height? (s : Search) (node : Nat) : Option Nat :=
  match s.mark node with
  | .onStack height => some height
  | _ => none

/-- Sets the mark of a node, if the graph has it. -/
def setMark (s : Search) (node : Nat) (m : Mark) : Search :=
  { s with
    marks := s.marks.setIfInBounds node m
    sized := by rw [Array.size_setIfInBounds, s.sized] }

/-- Opens a node on top of the stack. -/
def enter (s : Search) (node : Nat) : Search :=
  { s.setMark node (.onStack s.frames.length) with frames := ⟨node, 0⟩ :: s.frames }

/-- Finishes the node of the frame on top of the stack, with the frames `below`. -/
def close (s : Search) (frame : Frame) (below : List Frame) : Search :=
  { s.setMark frame.node .finished with
    frames := below
    finished := frame.node :: s.finished }

/-- Follows one more need of the frame on top of the stack, with the frames `below`. -/
def follow (s : Search) (frame : Frame) (below : List Frame) : Search :=
  { s with frames := { frame with cursor := frame.cursor + 1 } :: below }

/-- The part of the stack from a node on.  For a node that is not open that is the topmost node
alone. -/
def loopFrom (s : Search) (node : Nat) : List Nat :=
  match s.height? node with
  | some height => s.stack.drop height
  | none => s.stack.drop (s.stack.length - 1)

/-! ## Steps -/

/-- What a step comes to. -/
inductive Progress where
  /-- There is more to do. -/
  | running (next : Search)
  /-- The stack is worked off. -/
  | settled
  /-- A need of the topmost node is open: the nodes of the loop. -/
  | looped (next : Search) (nodes : List Nat)
  deriving DecidableEq, Repr

/-- One step of working off the stack down to `base` frames. -/
def step (base : Nat) (s : Search) : Progress :=
  match s.frames with
  | [] => .settled
  | frame :: below =>
    if below.length < base then .settled
    else
      match (s.graph.needsOf frame.node)[frame.cursor]? with
      | none => .running (s.close frame below)
      | some need =>
        let next := s.follow frame below
        match s.mark need with
        | .finished => .running next
        | .onStack _ => .looped next (next.loopFrom need)
        | .unvisited => .running (next.enter need)

/-! ## Why searches end -/

/-- How many nodes are unvisited. -/
def unvisitedCount (s : Search) : Nat := s.marks.toList.countP (· = .unvisited)

/-- The needs of a frame that are still to be followed, each counted twice, and the frame. -/
def framePending (g : Graph) (frame : Frame) : Nat :=
  2 * ((g.needsOf frame.node).length - frame.cursor) + 1

/-- What the frames on the stack still have to do. -/
def pending (s : Search) : Nat := s.frames.foldr (fun frame n => framePending s.graph frame + n) 0

theorem unvisitedCount_setMark_le (s : Search) (node : Nat) {m : Mark} (hm : m ≠ .unvisited) :
    (s.setMark node m).unvisitedCount ≤ s.unvisitedCount := by
  show (s.marks.setIfInBounds node m).toList.countP _ ≤ s.marks.toList.countP _
  rw [Array.toList_setIfInBounds]
  by_cases h : node < s.marks.toList.length
  · rw [List.countP_set h]
    simp [hm]
  · exact Nat.le_of_eq (congrArg _ (List.set_eq_of_length_le (by omega)))

theorem unvisitedCount_setMark_lt (s : Search) {node : Nat} {m : Mark} (hm : m ≠ .unvisited)
    (hn : s.marks[node]? = some .unvisited) :
    (s.setMark node m).unvisitedCount < s.unvisitedCount := by
  show (s.marks.setIfInBounds node m).toList.countP _ < s.marks.toList.countP _
  obtain ⟨h, hv⟩ := Array.getElem?_eq_some_iff.1 hn
  rw [Array.toList_setIfInBounds, List.countP_set (by simpa using h)]
  have hpos : 0 < s.marks.toList.countP (· = Mark.unvisited) :=
    List.countP_pos_iff.2 ⟨.unvisited, by rw [← hv]; simp, by simp⟩
  simp only [Array.getElem_toList, hv, hm, decide_true, decide_false, if_true, Bool.false_eq_true,
    if_false]
  omega

/-- A node that the graph does not have needs nothing. -/
theorem needsOf_eq_nil {s : Search} {node : Nat} (h : s.marks[node]? = none) :
    s.graph.needsOf node = [] := by
  have hn : s.graph.needs[node]? = none := by
    have hs : s.marks.size = s.graph.needs.size := s.sized
    rw [Array.getElem?_eq_none_iff] at h ⊢
    omega
  simp [Graph.needsOf, hn]

/-- Every step uses up unvisited nodes or, these being as many as before, pending work. -/
theorem measure_step {base : Nat} {s next : Search} (h : s.step base = .running next) :
    next.unvisitedCount < s.unvisitedCount ∨
      next.unvisitedCount ≤ s.unvisitedCount ∧ next.pending < s.pending := by
  unfold step at h
  split at h
  · cases h
  next frame below hf =>
  split at h
  · cases h
  split at h
  · cases h
    refine .inr ⟨unvisitedCount_setMark_le _ _ (by simp), ?_⟩
    simp only [pending, close, setMark, hf, List.foldr_cons, framePending]
    omega
  · next need hneed =>
    obtain ⟨hlt, -⟩ := List.getElem?_eq_some_iff.1 hneed
    have hfollow : (s.follow frame below).pending + 2 = s.pending := by
      simp only [pending, follow, hf, List.foldr_cons, framePending]
      omega
    have hsame : (s.follow frame below).unvisitedCount = s.unvisitedCount := rfl
    split at h
    · cases h
      exact .inr ⟨Nat.le_of_eq hsame, by omega⟩
    · cases h
    · next hm =>
      cases h
      cases hn : s.marks[need]? with
      | some m =>
        have : m = .unvisited := by simpa [mark, hn] using hm
        subst this
        exact .inl (unvisitedCount_setMark_lt (s.follow frame below) (by simp) hn)
      | none =>
        refine .inr ⟨unvisitedCount_setMark_le (s.follow frame below) _ (by simp), ?_⟩
        have hnil := needsOf_eq_nil hn
        have hp : ((s.follow frame below).enter need).pending
            = (s.follow frame below).pending + 1 := by
          simp only [pending, enter, setMark, follow, List.foldr_cons, framePending,
            hnil, List.length_nil]
          omega
        omega

/-! ## Whole searches -/

/-- Works off the stack down to `base` frames, or to the first loop. -/
def settle (base : Nat) (s : Search) : Search × Option (List Nat) :=
  match _h : s.step base with
  | .settled => (s, none)
  | .looped next nodes => (next, some nodes)
  | .running next => next.settle base
termination_by (s.unvisitedCount, s.pending)
decreasing_by
  rcases measure_step _h with hlt | ⟨hle, hlt⟩
  · exact .left _ _ hlt
  · rcases Nat.lt_or_eq_of_le hle with hlt' | heq
    · exact .left _ _ hlt'
    · rw [heq]
      exact .right _ hlt

/-- Opens a node and works off everything that it leads to: the nodes of a loop, if there is one. -/
def explore (s : Search) (root : Nat) : Search × Option (List Nat) :=
  (s.enter root).settle s.frames.length

/-- Explores those of `roots` that are unvisited when their turn comes. -/
def exploreAll (s : Search) : List Nat → Search × Option (List Nat)
  | [] => (s, none)
  | root :: rest =>
    match s.mark root with
    | .unvisited =>
      match s.explore root with
      | (next, none) => next.exploreAll rest
      | (next, some nodes) => (next, some nodes)
    | _ => s.exploreAll rest

end Search

end ContainerFlow
