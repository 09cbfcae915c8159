/-
ContainerFlow.Proofs.Schedule.Effort — how many steps a schedule takes,
and how high its stack grows.

`Search.due` is what a search has still to do before all nodes are
finished: for a node that is unvisited, a step for each of its needs and
one to finish it; for an open node, a step for each need behind the
cursor and one to finish it.  Opening a node moves its share from the
first sum to the second (`due_enter`), and every step takes exactly one
away (`due_of_running`, `due_of_looped`).  At the start all nodes and all
needs are due (`due_start`).

The searches with `Within` in their names are those of the scheduler on
limited means: they give up when they have no fuel left for a step, or
when the stack is too high.  With fuel for what is due and room for all
nodes they do not give up, and answer the same: `order_within_bounds`.
-/
import Mathlib
import ContainerFlow.Proofs.Schedule.Order
import ContainerFlow.Proofs.Schedule.Traversal

namespace ContainerFlow

namespace Search

variable {s next : Search} {base node room : Nat} {frame : Frame} {below : List Frame}

/-! ## What is due -/

/-- The nodes of the graph that are unvisited. -/
def unvisited (s : Search) : Finset Nat :=
  {node ∈ Finset.range s.graph.size | s.mark node = .unvisited}

/-- How many steps an open node still takes. -/
def frameDue (g : Graph) (frame : Frame) : Nat :=
  (g.needsOf frame.node).length - frame.cursor + 1

/-- How many steps are to be taken before all nodes are finished. -/
def due (s : Search) : Nat :=
  ∑ node ∈ s.unvisited, frameDue s.graph ⟨node, 0⟩ + (s.frames.map (frameDue s.graph)).sum

theorem mem_unvisited : node ∈ s.unvisited ↔ node < s.graph.size ∧ s.mark node = .unvisited := by
  simp [unvisited]

theorem unvisited_enter (hsize : node < s.graph.size) :
    (s.enter node).unvisited = s.unvisited.erase node := by
  ext a
  rw [mem_unvisited, mark_enter hsize, Finset.mem_erase, mem_unvisited]
  by_cases ha : a = node <;> simp [ha, enter, setMark]

theorem unvisited_close (hsize : frame.node < s.graph.size) (hmark : s.mark frame.node ≠ .unvisited)
    (below : List Frame) : (s.close frame below).unvisited = s.unvisited := by
  ext a
  rw [mem_unvisited, mark_close hsize, mem_unvisited]
  by_cases ha : a = frame.node <;> simp [ha, hmark, close, setMark]

/-- Opening a node takes no step. -/
theorem due_enter (hsize : node < s.graph.size) (hnew : s.mark node = .unvisited) :
    (s.enter node).due = s.due := by
  have hmem : node ∈ s.unvisited := mem_unvisited.mpr ⟨hsize, hnew⟩
  have hsum := Finset.add_sum_erase s.unvisited (fun a => frameDue s.graph ⟨a, 0⟩) hmem
  simp only [due, unvisited_enter hsize]
  simp only [enter, setMark, List.map_cons, List.sum_cons]
  omega

theorem due_follow (hf : s.frames = frame :: below)
    (hlt : frame.cursor < (s.graph.needsOf frame.node).length) :
    (s.follow frame below).due + 1 = s.due := by
  have hsame : (s.follow frame below).unvisited = s.unvisited := rfl
  simp only [due, hsame, hf, List.map_cons, List.sum_cons]
  simp only [follow, List.map_cons, List.sum_cons, frameDue]
  omega

theorem due_close (hs : s.Consistent) (hf : s.frames = frame :: below)
    (hend : (s.graph.needsOf frame.node).length ≤ frame.cursor) :
    (s.close frame below).due + 1 = s.due := by
  have htop : s.mark frame.node ≠ .unvisited := by simp [hs.mark_top hf]
  simp only [due, unvisited_close (lt_size_of_mark htop) htop, hf, List.map_cons, List.sum_cons]
  simp only [close, setMark, frameDue]
  omega

/-- Every step takes one away from what is due. -/
theorem due_of_running (hs : s.Consistent) (hin : s.graph.InRange)
    (h : s.Moves base (.running next)) : next.due + 1 = s.due := by
  cases h with
  | close hf hbase hend => exact due_close hs hf (List.getElem?_eq_none_iff.mp hend)
  | follow hf hbase hneed hmark => exact due_follow hf (List.getElem?_eq_some_iff.mp hneed).1
  | @enter frame below need hf hbase hneed hmark =>
    -- Following the need is the step; opening it takes none.
    have hsize : need < (s.follow frame below).graph.size := hin _ _ (List.mem_of_getElem? hneed)
    rw [due_enter hsize hmark]
    exact due_follow hf (List.getElem?_eq_some_iff.mp hneed).1

/-- So does the step that meets a loop. -/
theorem due_of_looped {nodes : List Nat} (h : s.Moves base (.looped next nodes)) :
    next.due + 1 = s.due := by
  cases h with
  | loop hf hbase hneed hmark => exact due_follow hf (List.getElem?_eq_some_iff.mp hneed).1

theorem sum_length_getD (lists : List (List Nat)) :
    ∑ i ∈ Finset.range lists.length, (lists[i]?.getD []).length =
      lists.foldr (fun list n => list.length + n) 0 := by
  induction lists with
  | nil => rfl
  | cons list rest ih =>
    rw [List.length_cons, Finset.sum_range_succ', List.foldr_cons, ← ih, Nat.add_comm]
    simp

theorem sum_needsOf (g : Graph) :
    ∑ node ∈ Finset.range g.size, (g.needsOf node).length = g.edgeCount := by
  have hsum := sum_length_getD g.needs.toList
  simp only [Array.length_toList, Array.getElem?_toList] at hsum
  exact hsum

/-- At the start, all nodes and all needs are due. -/
theorem due_start (g : Graph) : (start g).due = g.size + g.edgeCount := by
  have hall : (start g).unvisited = Finset.range g.size := by
    ext node
    rw [mem_unvisited, mark_start, Finset.mem_range]
    exact and_iff_left rfl
  have hgraph : (start g).graph = g := rfl
  have hframes : (start g).frames = [] := rfl
  simp only [due, hall, hgraph, hframes, frameDue, Nat.sub_zero, Finset.sum_add_distrib,
    sum_needsOf, Finset.sum_const, Finset.card_range, smul_eq_mul, mul_one, List.map_nil,
    List.sum_nil]
  omega

/-- When all nodes are finished, nothing is due. -/
theorem due_eq_zero {g : Graph} {nodes : List Nat} (h : s.At g [] nodes)
    (hall : ∀ node < g.size, node ∈ nodes) : s.due = 0 := by
  have hframes : s.frames = [] := by simpa [stack] using h.stack
  have hnone : s.unvisited = ∅ := by
    refine Finset.eq_empty_of_forall_notMem fun node hnode => ?_
    obtain ⟨hsize, hmark⟩ := mem_unvisited.mp hnode
    rw [h.graph] at hsize
    rw [(h.mark_finished_iff node).mpr (hall node hsize)] at hmark
    cases hmark
  simp [due, hframes, hnone]

/-- There is never more on the stack than there are nodes. -/
theorem Consistent.length_frames_le (hs : s.Consistent) : s.frames.length ≤ s.graph.size := by
  have hsub : s.stack ⊆ List.range s.graph.size := by
    intro node hnode
    obtain ⟨height, hmark⟩ := (hs.mem_stack_iff node).mp hnode
    exact List.mem_range.mpr (lt_size_of_mark (by simp [hmark]))
  have hle := (List.subperm_of_subset hs.nodup_stack hsub).length_le
  rwa [length_stack, List.length_range] at hle

/-! ## Searches on limited means -/

/-- Works off the stack down to `base` frames, or to the first loop, with `fuel` for so many steps
and `room` for so many open nodes: what comes of it, and the fuel that is left. -/
def settleWithin (room base : Nat) (fuel : Nat) (s : Search) :
    Option (Search × Option (List Nat) × Nat) :=
  if room < s.frames.length then none
  else
    match s.step base, fuel with
    | .settled, fuel => some (s, none, fuel)
    | .looped next nodes, fuel + 1 => some (next, some nodes, fuel)
    | .running next, fuel + 1 => settleWithin room base fuel next
    | _, 0 => none

/-- Opens a node and works off everything that it leads to. -/
def exploreWithin (room fuel : Nat) (s : Search) (root : Nat) :
    Option (Search × Option (List Nat) × Nat) :=
  (s.enter root).settleWithin room s.frames.length fuel

/-- Explores those of `roots` that are unvisited when their turn comes, all with the same fuel. -/
def exploreAllWithin (room fuel : Nat) (s : Search) :
    List Nat → Option (Search × Option (List Nat) × Nat)
  | [] => some (s, none, fuel)
  | root :: rest =>
    match s.mark root with
    | .unvisited =>
      match s.exploreWithin room fuel root with
      | some (next, none, left) => next.exploreAllWithin room left rest
      | stopped => stopped
    | _ => s.exploreAllWithin room fuel rest

section Steps

variable (hroom : s.frames.length ≤ room) (fuel : Nat)

include hroom

theorem settleWithin_of_settled (hstep : s.step base = .settled) :
    s.settleWithin room base fuel = some (s, none, fuel) := by
  unfold settleWithin
  rw [if_neg (Nat.not_lt.mpr hroom), hstep]

theorem settleWithin_of_looped {nodes : List Nat} (hstep : s.step base = .looped next nodes) :
    s.settleWithin room base (fuel + 1) = some (next, some nodes, fuel) := by
  unfold settleWithin
  rw [if_neg (Nat.not_lt.mpr hroom), hstep]

theorem settleWithin_of_running (hstep : s.step base = .running next) :
    s.settleWithin room base (fuel + 1) = next.settleWithin room base fuel := by
  rw [settleWithin.eq_def, if_neg (Nat.not_lt.mpr hroom), hstep]

end Steps

/-- With fuel for what is due and room for all nodes, working off the stack comes to its end, and
what is due then is left of the fuel. -/
theorem settleWithin_eq (hs : s.Consistent) (hin : s.graph.InRange) (hroom : s.graph.size ≤ room)
    (base spare : Nat) :
    s.settleWithin room base (s.due + spare) =
      some ((s.settle base).1, (s.settle base).2, (s.settle base).1.due + spare) := by
  fun_induction settle base s with
  | case1 s hstep => exact settleWithin_of_settled (hs.length_frames_le.trans hroom) _ hstep
  | case2 s next nodes hstep =>
    rw [← due_of_looped (moves_of_step hstep), Nat.add_right_comm]
    exact settleWithin_of_looped (hs.length_frames_le.trans hroom) _ hstep
  | case3 s next hstep ih =>
    obtain ⟨hnext, hgraph⟩ := hs.of_moves hin (.inl (moves_of_step hstep))
    rw [← due_of_running hs hin (moves_of_step hstep), Nat.add_right_comm,
      settleWithin_of_running (hs.length_frames_le.trans hroom) _ hstep]
    exact ih hnext (hgraph ▸ hin) (hgraph ▸ hroom)

/-- Exploring nodes in turn comes to its end on the same means. -/
theorem exploreAllWithin_eq (hs : s.Consistent) (hin : s.graph.InRange)
    (hroom : s.graph.size ≤ room) {roots : List Nat} (hroots : ∀ root ∈ roots, root < s.graph.size)
    (spare : Nat) :
    s.exploreAllWithin room (s.due + spare) roots =
      some ((s.exploreAll roots).1, (s.exploreAll roots).2,
        (s.exploreAll roots).1.due + spare) := by
  induction roots generalizing s with
  | nil => rfl
  | cons root rest ih =>
    obtain ⟨hsize, hrest⟩ := List.forall_mem_cons.mp hroots
    rw [exploreAllWithin, exploreAll]
    cases hmark : s.mark root with
    | onStack height => exact ih hs hin hroom hrest
    | finished => exact ih hs hin hroom hrest
    | unvisited =>
      have hwithin : s.exploreWithin room (s.due + spare) root =
          some ((s.explore root).1, (s.explore root).2, (s.explore root).1.due + spare) := by
        rw [exploreWithin, ← due_enter hsize hmark]
        exact settleWithin_eq (hs.enter hsize hmark) hin hroom s.frames.length spare
      obtain ⟨-, hnext, hgraph⟩ := hs.explore hin hsize hmark
      simp only [hwithin]
      generalize s.explore root = found at hnext hgraph ⊢
      obtain ⟨next, _ | nodes⟩ := found
      · exact ih hnext (hgraph ▸ hin) (hgraph ▸ hroom) (hgraph ▸ hrest)
      · rfl

end Search

/-! ## Schedules on limited means -/

/-- The order of a graph, or a loop, by a search on limited means, and the fuel that is left. -/
def Graph.orderWithin (g : Graph) (room fuel : Nat) :
    Option (Except (List Nat) (List Nat) × Nat) :=
  match (Search.start g).exploreAllWithin room fuel (List.range g.size) with
  | some (done, none, left) => some (.ok done.order, left)
  | some (_, some nodes, left) => some (.error nodes, left)
  | none => none

/-- Room for all nodes and fuel for all nodes and needs are means enough. -/
theorem Graph.orderWithin_eq {g : Graph} (hin : g.InRange) :
    ∃ left, g.orderWithin g.size (g.size + g.edgeCount) = some (g.order, left) ∧
      ∀ nodes, g.order = .ok nodes → left = 0 := by
  have hroots : ∀ root ∈ List.range g.size, root < g.size := fun root => List.mem_range.mp
  have hwithin := Search.exploreAllWithin_eq (Search.consistent_start g) hin (Nat.le_refl g.size)
    hroots 0
  have hvisit := Search.exploreAll_visit hin (Search.at_start g) hroots
  rw [Nat.add_zero, Search.due_start] at hwithin
  rw [orderWithin, hwithin, order_eq_answer hin]
  cases hrec : g.visit [] (List.range g.size) [] with
  | error loop =>
    rw [hrec] at hvisit
    obtain ⟨next, heq⟩ := hvisit
    rw [heq]
    refine ⟨_, rfl, fun _ hnodes => ?_⟩
    cases hnodes
  | ok nodes =>
    rw [hrec] at hvisit
    obtain ⟨next, hnext, heq⟩ := hvisit
    rw [heq]
    refine ⟨_, rfl, fun _ _ => ?_⟩
    exact Search.due_eq_zero hnext fun node => ((ordered_of_recursiveOrder hin hrec).2 node).mpr

namespace Workflow

theorem edgeCount_graph (w : Workflow) :
    w.graph.edgeCount = (w.actions.map fun a => a.needs.length).sum := by
  simp [Graph.edgeCount, graph, List.sum, List.foldr_map]

/-- With one step less there is no order of the first of these. -/
example :
    let w := ofNeeds [("ship", [1, 2, 1]), ("test", [2]), ("make", [])]
    w.graph.orderWithin 3 7 = some (.ok [2, 1, 0], 0) ∧ w.graph.orderWithin 3 6 = none := by
  intro w
  exact ⟨by cbv, by cbv⟩

end Workflow

end ContainerFlow
