/-
ContainerFlow.Proofs.Schedule.Traversal — the parallel lists of a
traversal are a search.

Proofs see a search as marks and frames (`Search`), where the parts that
belong together are kept together.  `Search.lists` writes such a search
out as the scheduler keeps it: states apart from places, the stack apart
from the cursors.  What an operation does to the lists is what it does to
the search, look-up by look-up: `push_lists`, `pop_lists`,
`cycleFrom_lists`, and with these `step_lists`.

No operation needs more for that than a node of the graph, but a step on
any lists may look up what is not there.  On the lists of a consistent
search it does not, if the next need is a node of the graph
(`NextInRange`).  As moves keep a search consistent
(`Consistent.of_moves`), a whole visit finds all that it looks for:
`Consistent.explore`.

So the scheduler answers what the search answers
(`Graph.order_eq_answer`), and no look-up on its way leads to nothing
(`Graph.order?_eq`).
-/
import ContainerFlow.Proofs.Schedule.Consistency
import ContainerFlow.Proofs.Schedule.Step
import ContainerFlow.Schedule

namespace ContainerFlow

/-! ## A search as parallel lists -/

/-- The state that a mark stands for. -/
def Mark.visit : Mark → Visit
  | .unvisited => .unvisited
  | .onStack _ => .inProgress
  | .finished => .done

/-- The place that a mark stands for. -/
def Mark.position : Mark → Int
  | .onStack height => height
  | .unvisited | .finished => Traversal.noPosition

namespace Search

variable {s next : Search} {frame : Frame} {below : List Frame} {base node : Nat}

/-- A search, written out as parallel lists. -/
def lists (s : Search) : Traversal where
  graph := s.graph
  state := s.marks.map Mark.visit
  position := s.marks.map Mark.position
  stack := s.stack.toArray
  cursor := s.cursors.toArray
  order := s.order.toArray
  size_state := by rw [Array.size_map, s.sized]
  size_position := by rw [Array.size_map, s.sized]

theorem lists_start (g : Graph) : (start g).lists = .start g := by
  ext1 <;> simp [lists, start, Traversal.start, stack, cursors, order, Mark.visit, Mark.position]

theorem getElem?_marks (h : node < s.graph.size) : s.marks[node]? = some (s.mark node) := by
  have hmarks : node < s.marks.size := s.sized ▸ h
  rw [mark, Array.getElem?_eq_getElem hmarks, Option.getD_some]

theorem getElem?_needs (h : node < s.graph.size) :
    s.graph.needs[node]? = some (s.graph.needsOf node) := by
  have hneeds : node < s.graph.needs.size := h
  rw [Graph.needsOf, Array.getElem?_eq_getElem hneeds, Option.getD_some]

theorem getElem?_state_lists (h : node < s.graph.size) :
    s.lists.state[node]? = some (s.mark node).visit := by
  rw [lists, Array.getElem?_map, getElem?_marks h, Option.map_some]

theorem getElem?_position_lists (h : node < s.graph.size) :
    s.lists.position[node]? = some (s.mark node).position := by
  rw [lists, Array.getElem?_map, getElem?_marks h, Option.map_some]

theorem length_cursors (s : Search) : s.cursors.length = s.frames.length := by simp [cursors]

/-! ## Operations -/

theorem push_lists (h : node < s.graph.size) :
    s.lists.push node = some (s.enter node).lists := by
  have hsize : node < s.lists.graph.size := h
  rw [Traversal.push, if_pos hsize]
  congr 1
  ext1 <;> simp [lists, enter, setMark, Traversal.setNode, stack, cursors, order, Mark.visit,
    Mark.position]

theorem back?_stack_lists (hf : s.frames = frame :: below) :
    s.lists.stack.back? = some frame.node := by
  simp [lists, stack, hf]

theorem back?_cursor_lists (hf : s.frames = frame :: below) :
    s.lists.cursor.back? = some frame.cursor := by
  simp [lists, cursors, hf]

theorem pop_lists (hf : s.frames = frame :: below) :
    s.lists.pop = .ok (s.close frame below).lists := by
  rw [Traversal.pop, back?_stack_lists hf, back?_cursor_lists hf]
  refine congrArg Except.ok ?_
  ext1 <;> simp [lists, close, setMark, Traversal.setNode, stack, cursors, order, hf, Mark.visit,
    Mark.position]

theorem pop_lists_of_nil (hf : s.frames = []) :
    s.lists.pop = .error (.defect .noOpenNode) := by
  simp [Traversal.pop, lists, stack, hf]

theorem moveCursor_lists (hf : s.frames = frame :: below) :
    s.lists.moveCursor (frame.cursor + 1) = (s.follow frame below).lists := by
  ext1 <;> simp [lists, follow, Traversal.moveCursor, stack, cursors, order, hf]

/-- The place of a node that is not on the stack says what the search does without one: the last
node on the stack. -/
theorem cycleFrom_lists (h : node < s.graph.size) :
    s.lists.cycleFrom node = some (s.loopFrom node) := by
  rw [Traversal.cycleFrom, getElem?_position_lists h, Option.map_some, loopFrom, height?]
  have hlast : Traversal.sliceFrom s.stack Traversal.noPosition =
      s.stack.drop (s.stack.length - 1) := by
    rw [Traversal.sliceFrom, if_pos (by decide)]
    congr 1
    simp only [Traversal.noPosition]
    omega
  congr 1
  cases s.mark node with
  | onStack height =>
    have hplace : ¬ (height : Int) < 0 := Int.not_lt.mpr (Int.natCast_nonneg height)
    simp [Traversal.sliceFrom, Mark.position, lists, hplace]
  | unvisited => exact hlast
  | finished => exact hlast

/-! ## Steps -/

/-- What a step comes to, written out. -/
def Progress.lists : Progress → Traversal.Progress
  | .running next => .running next.lists
  | .settled => .settled
  | .looped next nodes => .looped next.lists nodes

theorem size_stack_lists (s : Search) : s.lists.stack.size = s.frames.length := by
  rw [lists, List.size_toArray, length_stack]

/-- What the node on top of the stack needs next is a node of the graph. -/
def NextInRange (base : Nat) (s : Search) : Prop :=
  ∀ frame below, s.frames = frame :: below → base ≤ below.length →
    ∀ need, (s.graph.needsOf frame.node)[frame.cursor]? = some need → need < s.graph.size

theorem nextInRange_of_inRange (hin : s.graph.InRange) (base : Nat) : s.NextInRange base :=
  fun frame _ _ _ need hneed => hin frame.node need (List.mem_of_getElem? hneed)

/-- A step on the lists of a consistent search finds all that it looks for, and does what a step of
the search does. -/
theorem step_lists (hs : s.Consistent) (hnext : s.NextInRange base) :
    s.lists.step base = some (s.step base).lists := by
  rw [Traversal.step, size_stack_lists]
  split
  · next hbase => rw [step_of_length_le hbase, Progress.lists]
  next hbase =>
  cases hf : s.frames with
  | nil => simp [hf] at hbase
  | cons frame below =>
    have hheight : base ≤ below.length := by
      rw [hf, List.length_cons] at hbase
      omega
    -- The node on top is marked as open, so it is a node of the graph.
    have hnode : frame.node < s.graph.size := lt_size_of_mark (by simp [hs.mark_top hf])
    have hcursor : frame.cursor ≤ (s.graph.needsOf frame.node).length :=
      hs.cursor_le frame (by simp [hf])
    have hneeds : s.lists.graph.needs[frame.node]? = some (s.graph.needsOf frame.node) :=
      getElem?_needs hnode
    simp only [back?_stack_lists hf, hneeds, back?_cursor_lists hf, Option.bind_eq_bind,
      Option.bind_some, step, hf, Nat.not_lt.mpr hheight, if_false]
    split
    · next hend => simp [pop_lists hf, hend, Except.toOption, Progress.lists]
    · next hend =>
      have hlt := Nat.lt_of_le_of_ne hcursor hend
      have hneed : (s.graph.needsOf frame.node)[frame.cursor] < (s.follow frame below).graph.size :=
        hnext frame below hf hheight _ (List.getElem?_eq_getElem hlt)
      have hmark : (s.follow frame below).mark (s.graph.needsOf frame.node)[frame.cursor] =
          s.mark (s.graph.needsOf frame.node)[frame.cursor] := rfl
      simp only [List.getElem?_eq_getElem hlt, Option.bind_some, moveCursor_lists hf,
        getElem?_state_lists hneed, hmark]
      cases s.mark (s.graph.needsOf frame.node)[frame.cursor] with
      | finished => rfl
      | onStack height =>
        simp only [Mark.visit, cycleFrom_lists hneed, Option.bind_some]
        rfl
      | unvisited =>
        simp only [Mark.visit, push_lists hneed, Option.bind_some]
        rfl

/-! ## Visits -/

/-- Working off the stack finds all that it looks for, and does what the search does, if `P` keeps
the search consistent and within the graph. -/
theorem settle_lists {P : Search → Prop}
    (hgood : ∀ now, P now → now.Consistent ∧ now.NextInRange base)
    (hkeep : ∀ now next, P now → now.Moves base (.running next) → P next) (hs : P s) :
    s.lists.settle base = some ((s.settle base).1.lists, (s.settle base).2) := by
  obtain ⟨hconsistent, hnext⟩ := hgood s hs
  have hlists := step_lists hconsistent hnext
  fun_induction settle base s with
  | case1 s hstep =>
    rw [hstep, Progress.lists] at hlists
    rw [Traversal.settle]
    split <;> simp_all
  | case2 s next nodes hstep =>
    rw [hstep, Progress.lists] at hlists
    rw [Traversal.settle]
    split <;> simp_all
  | case3 s next hstep ih =>
    have hrest := hkeep s next hs (moves_of_step hstep)
    obtain ⟨hconsistent', hnext'⟩ := hgood next hrest
    have hsettle := ih hrest hconsistent' hnext' (step_lists hconsistent' hnext')
    rw [hstep, Progress.lists] at hlists
    rw [Traversal.settle]
    split <;> simp_all

theorem visit_lists_eq (hsize : node < s.graph.size) :
    s.lists.visit node = (s.enter node).lists.settle s.frames.length := by
  rw [Traversal.visit, push_lists hsize, size_stack_lists]
  rfl

namespace Consistent

/-- Every move keeps a search consistent, and the graph as it is. -/
theorem of_moves (hs : s.Consistent) (hin : s.graph.InRange)
    (h : s.Moves base (.running next) ∨ ∃ nodes, s.Moves base (.looped next nodes)) :
    next.Consistent ∧ next.graph = s.graph := by
  rcases h with h | ⟨nodes, h⟩
  · cases h with
    | close hf hbase hend => exact ⟨hs.close hf, rfl⟩
    | follow hf hbase hneed hmark =>
      exact ⟨hs.follow hf (List.getElem?_eq_some_iff.mp hneed).1, rfl⟩
    | enter hf hbase hneed hmark =>
      have hfollow := hs.follow hf (List.getElem?_eq_some_iff.mp hneed).1
      exact ⟨hfollow.enter (hin _ _ (List.mem_of_getElem? hneed)) hmark, rfl⟩
  · cases h with
    | loop hf hbase hneed hmark =>
      exact ⟨hs.follow hf (List.getElem?_eq_some_iff.mp hneed).1, rfl⟩

/-- Exploring an unvisited node keeps a search consistent, and its lists come to the same. -/
theorem explore (hs : s.Consistent) (hin : s.graph.InRange) {root : Nat}
    (hsize : root < s.graph.size) (hnew : s.mark root = .unvisited) :
    s.lists.visit root = some ((s.explore root).1.lists, (s.explore root).2) ∧
      (s.explore root).1.Consistent ∧ (s.explore root).1.graph = s.graph := by
  have hfirst : (s.enter root).Consistent ∧ (s.enter root).graph = s.graph :=
    ⟨hs.enter hsize hnew, rfl⟩
  have hkeep : ∀ now next : Search, now.Consistent ∧ now.graph = s.graph →
      now.Moves s.frames.length (.running next) → next.Consistent ∧ next.graph = s.graph := by
    rintro now next ⟨hnow, hgraph⟩ hmoves
    obtain ⟨hnext, hsame⟩ := hnow.of_moves (hgraph ▸ hin) (.inl hmoves)
    exact ⟨hnext, hsame.trans hgraph⟩
  constructor
  · rw [visit_lists_eq hsize]
    refine settle_lists (fun now hnow => ?_) hkeep hfirst
    exact ⟨hnow.1, nextInRange_of_inRange (hnow.2 ▸ hin) _⟩
  · rw [Search.explore]
    rcases exists_last hkeep hfirst with ⟨hlast, -, -⟩ | ⟨last, next, nodes, hlast, hmoves, heq⟩
    · exact hlast
    · rw [heq]
      obtain ⟨hnext, hsame⟩ := hlast.1.of_moves (hlast.2 ▸ hin) (.inr ⟨nodes, hmoves⟩)
      exact ⟨hnext, hsame.trans hlast.2⟩

/-- So does exploring nodes of the graph, one after the other. -/
theorem visitAll_lists (hs : s.Consistent) (hin : s.graph.InRange) {roots : List Nat}
    (hroots : ∀ root ∈ roots, root < s.graph.size) :
    s.lists.visitAll roots = some ((s.exploreAll roots).1.lists, (s.exploreAll roots).2) := by
  induction roots generalizing s with
  | nil => rfl
  | cons root rest ih =>
    obtain ⟨hsize, hrest⟩ := List.forall_mem_cons.mp hroots
    rw [Traversal.visitAll, exploreAll, getElem?_state_lists hsize]
    cases hmark : s.mark root with
    | onStack height => exact ih hs hin hrest
    | finished => exact ih hs hin hrest
    | unvisited =>
      obtain ⟨hvisit, hnext, hgraph⟩ := hs.explore hin hsize hmark
      simp only [Mark.visit, hvisit, Option.bind_eq_bind, Option.bind_some]
      generalize s.explore root = found at hnext hgraph ⊢
      obtain ⟨next, _ | nodes⟩ := found
      · exact ih hnext (hgraph ▸ hin) (hgraph ▸ hrest)
      · rfl

end Consistent

/-- What a search of the whole graph comes to: the order of the nodes, or a loop. -/
def answer (found : Search × Option (List Nat)) : Except (List Nat) (List Nat) :=
  match found with
  | (last, none) => .ok last.order
  | (_, some nodes) => .error nodes

end Search

namespace Graph

variable {g : Graph}

/-- The scheduler answers what a search answers. -/
theorem order?_eq_answer (hin : g.InRange) :
    g.order? = some (Search.answer ((Search.start g).exploreAll (List.range g.size))) := by
  have hall : (Search.start g).lists.visitAll (List.range g.size) = _ :=
    (Search.consistent_start g).visitAll_lists hin fun root hroot => List.mem_range.mp hroot
  rw [Search.lists_start] at hall
  rw [order?, hall]
  generalize (Search.start g).exploreAll (List.range g.size) = found
  obtain ⟨last, _ | nodes⟩ := found <;> rfl

theorem order_eq_answer (hin : g.InRange) :
    g.order = Search.answer ((Search.start g).exploreAll (List.range g.size)) := by
  rw [order, order?_eq_answer hin, Option.getD_some]

/-- **Scheduling stays within its lists**: over a graph that has all its needs, every node, need and
place that is looked up is there. -/
theorem order?_eq (hin : g.InRange) : g.order? = some g.order := by
  rw [order?_eq_answer hin, order_eq_answer hin]

end Graph

end ContainerFlow
