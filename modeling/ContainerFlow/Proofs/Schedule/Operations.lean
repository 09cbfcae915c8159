/-
ContainerFlow.Proofs.Schedule.Operations — traversals in any hands.

The scheduler visits one node after the other, each from an empty stack.
Nothing in a traversal depends on that: nodes may be pushed and popped by
hand, a visit may start anywhere, and a traversal that has met a cycle
may be used as it was left there.  The five lists of a traversal agree all
the same (`Traversal.Sound`), after every operation of every such use:
`sound_after`.

Nothing in the type of a traversal says that they do.  They do just when
the traversal is a consistent search, written out: `Consistent.sound` and
`Sound.exists_search`.  So the proof that an operation keeps them in step
(`Sound.perform`) goes over to the search and back.
-/
import Mathlib
import ContainerFlow.Proofs.Schedule.Traversal

namespace ContainerFlow

namespace Traversal

/-! ## Sound traversals -/

/-- What a traversal keeps of its nodes in five lists agrees. -/
structure Sound (t : Traversal) : Prop where
  size_cursor : t.cursor.size = t.stack.size
  nodup_stack : t.stack.toList.Nodup
  /-- No other node has a place. -/
  position_eq : ∀ (node : Nat) place, t.position[node]? = some place →
    t.state[node]? ≠ some .inProgress → place = -1
  inProgress_iff : ∀ node : Nat, t.state[node]? = some .inProgress ↔ node ∈ t.stack
  /-- A node in progress has its place on the stack. -/
  position_inProgress : ∀ node : Nat, t.state[node]? = some .inProgress →
    ∃ i : Nat, t.position[node]? = some (i : Int) ∧ t.stack[i]? = some node
  done_iff : ∀ node : Nat, t.state[node]? = some .done ↔ node ∈ t.order
  nodup_order : t.order.toList.Nodup
  /-- No cursor is past the needs of its node. -/
  cursor_le : ∀ i node place : Nat, t.stack[i]? = some node → t.cursor[i]? = some place →
    place ≤ (t.graph.needsOf node).length

end Traversal

/-! ## Sound traversals are consistent searches -/

namespace Search

variable {s : Search} {node : Nat}

theorem state_lists_eq_done_iff : s.lists.state[node]? = some .done ↔ s.mark node = .finished := by
  rw [lists, Array.getElem?_map, mark]
  cases s.marks[node]? with
  | none => simp
  | some m => cases m <;> simp [Mark.visit]

theorem state_lists_eq_inProgress_iff :
    s.lists.state[node]? = some .inProgress ↔ ∃ height, s.mark node = .onStack height := by
  rw [lists, Array.getElem?_map, mark]
  cases s.marks[node]? with
  | none => simp
  | some m => cases m <;> simp [Mark.visit]

theorem unvisited_of_state_lists (h : s.lists.state[node]? = some .unvisited) :
    node < s.graph.size ∧ s.mark node = .unvisited := by
  have hsize : node < s.graph.size :=
    s.lists.size_state ▸ (Array.getElem?_eq_some_iff.mp h).1
  refine ⟨hsize, ?_⟩
  rw [getElem?_state_lists hsize, Option.some.injEq] at h
  cases hm : s.mark node with
  | unvisited => rfl
  | onStack height => simp [hm, Mark.visit] at h
  | finished => simp [hm, Mark.visit] at h

theorem position_lists_of_onStack {height : Nat} (h : s.mark node = .onStack height) :
    s.lists.position[node]? = some (height : Int) := by
  rw [getElem?_position_lists (lt_size_of_mark (by simp [h])), h, Mark.position]

theorem position_lists_eq {place : Int} (h : s.lists.position[node]? = some place)
    (hnot : s.lists.state[node]? ≠ some .inProgress) : place = -1 := by
  rw [lists, Array.getElem?_map, Option.map_eq_some_iff] at h
  rw [lists, Array.getElem?_map] at hnot
  obtain ⟨m, hm, rfl⟩ := h
  cases m with
  | onStack height => simp [hm, Mark.visit] at hnot
  | unvisited => rfl
  | finished => rfl

theorem getElem?_stack (s : Search) (i : Nat) :
    s.stack[i]? = s.frames.reverse[i]?.map Frame.node := by
  rw [stack, ← List.map_reverse, List.getElem?_map]

theorem getElem?_cursors (s : Search) (i : Nat) :
    s.cursors[i]? = s.frames.reverse[i]?.map Frame.cursor := by
  rw [cursors, ← List.map_reverse, List.getElem?_map]

/-- Cursors may be told by frame or by place on the stack. -/
theorem forall_frame_iff {P : Nat → Nat → Prop} :
    (∀ frame ∈ s.frames, P frame.node frame.cursor) ↔
      ∀ i node cursor : Nat, s.stack[i]? = some node → s.cursors[i]? = some cursor →
        P node cursor := by
  simp only [getElem?_stack, getElem?_cursors, Option.map_eq_some_iff]
  refine ⟨?_, fun h frame hframe => ?_⟩
  · rintro h i _ _ ⟨frame, hframe, rfl⟩ ⟨frame', hframe', rfl⟩
    cases hframe.symm.trans hframe'
    exact h frame (List.mem_reverse.mp (List.mem_of_getElem? hframe))
  · obtain ⟨i, hi⟩ := List.mem_iff_getElem?.mp (List.mem_reverse.mpr hframe)
    exact h i _ _ ⟨frame, hi, rfl⟩ ⟨frame, hi, rfl⟩

theorem Consistent.sound (h : s.Consistent) : s.lists.Sound where
  size_cursor := by simp [lists, length_cursors, length_stack]
  nodup_stack := h.nodup_stack
  position_eq _ _ := position_lists_eq
  inProgress_iff node := by
    rw [state_lists_eq_inProgress_iff, ← h.mem_stack_iff]
    simp [lists]
  position_inProgress node hnode := by
    obtain ⟨height, hmark⟩ := state_lists_eq_inProgress_iff.mp hnode
    refine ⟨height, position_lists_of_onStack hmark, ?_⟩
    simpa [lists] using (h.onStack_iff node height).mp hmark
  done_iff node := by
    rw [state_lists_eq_done_iff, h.finished_iff]
    simp [lists]
  nodup_order := h.distinct
  cursor_le i node place hnode hcursor := by
    refine forall_frame_iff (P := fun node cursor => cursor ≤ (s.graph.needsOf node).length)
      |>.mp h.cursor_le i node place ?_ ?_
    · simpa [lists] using hnode
    · simpa [lists] using hcursor

theorem consistent_of_sound (h : s.lists.Sound) : s.Consistent where
  finished_iff node := by
    rw [← state_lists_eq_done_iff, h.done_iff]
    simp [lists]
  onStack_iff node height := by
    have hstack (i : Nat) : s.lists.stack[i]? = s.stack[i]? := List.getElem?_toArray
    refine ⟨fun hmark => ?_, fun hget => ?_⟩
    · obtain ⟨i, hi, hnode⟩ := h.position_inProgress node
        (state_lists_eq_inProgress_iff.mpr ⟨height, hmark⟩)
      rw [position_lists_of_onStack hmark, Option.some.injEq, Int.natCast_inj] at hi
      rwa [hi, ← hstack]
    · have hmem : node ∈ s.lists.stack := Array.mem_of_getElem? ((hstack height).trans hget)
      obtain ⟨height', hmark⟩ := state_lists_eq_inProgress_iff.mp ((h.inProgress_iff node).mpr hmem)
      obtain ⟨i, hi, hnode⟩ := h.position_inProgress node ((h.inProgress_iff node).mpr hmem)
      rw [position_lists_of_onStack hmark, Option.some.injEq, Int.natCast_inj] at hi
      rw [hstack] at hnode
      -- The node is on the stack once, so both places are the same.
      obtain ⟨hlt, hnode'⟩ := List.getElem?_eq_some_iff.mp hnode
      obtain ⟨hlt', hget'⟩ := List.getElem?_eq_some_iff.mp hget
      have hnodup : s.stack.Nodup := h.nodup_stack
      rw [hmark, hi, hnodup.getElem_inj_iff.mp (hnode'.trans hget'.symm)]
  distinct := h.nodup_order
  cursor_le := forall_frame_iff.mpr fun i node cursor hnode hcursor =>
    h.cursor_le i node cursor (by simpa [lists] using hnode) (by simpa [lists] using hcursor)

end Search

namespace Traversal

variable {t : Traversal} {g : Graph} {node : Nat}

/-- The mark for a state and a place. -/
def markOf : Visit → Int → Mark
  | .unvisited, _ => .unvisited
  | .inProgress, place => .onStack place.toNat
  | .done, _ => .finished

/-- A traversal as a search: states and places put together, and nodes and cursors. -/
def search (t : Traversal) : Search where
  graph := t.graph
  marks := Array.zipWith markOf t.state t.position
  frames := ((t.stack.toList.zip t.cursor.toList).map fun p => ⟨p.1, p.2⟩).reverse
  finished := t.order.toList.reverse
  sized := by rw [Array.size_zipWith, t.size_state, t.size_position, Nat.min_self]

theorem visit_markOf (v : Visit) (place : Int) : (markOf v place).visit = v := by
  cases v <;> rfl

/-- The lists of a sound traversal are those of the search that they make up. -/
theorem Sound.lists_search (h : t.Sound) : t.search.lists = t := by
  have hsize : t.state.size = t.position.size := t.size_state.trans t.size_position.symm
  have hcursor := h.size_cursor
  ext1
  case graph => rfl
  case state =>
    refine Array.ext (by simp [Search.lists, search, hsize]) fun i _ _ => ?_
    simp [Search.lists, search, visit_markOf]
  case position =>
    refine Array.ext (by simp [Search.lists, search, hsize]) fun i hi hi' => ?_
    have hstate : t.state[i]? = some t.state[i] := Array.getElem?_eq_getElem (hsize ▸ hi')
    have hplace : t.position[i]? = some t.position[i] := Array.getElem?_eq_getElem hi'
    simp only [Search.lists, search, Array.getElem_map, Array.getElem_zipWith]
    cases hv : t.state[i] with
    | inProgress =>
      rw [hv] at hstate
      obtain ⟨height, hheight, -⟩ := h.position_inProgress i hstate
      rw [hplace, Option.some.injEq] at hheight
      rw [hheight]
      rfl
    | unvisited => exact (h.position_eq i _ hplace (by simp [hstate, hv])).symm
    | done => exact (h.position_eq i _ hplace (by simp [hstate, hv])).symm
  case stack =>
    have hfst : (t.stack.toList.zip t.cursor.toList).map Prod.fst = t.stack.toList :=
      List.map_fst_zip (by simp [hcursor])
    have hstack : t.search.stack = t.stack.toList := by
      simpa [Search.stack, search, Function.comp_def] using hfst
    rw [Search.lists, hstack, Array.toArray_toList]
  case cursor =>
    have hsnd : (t.stack.toList.zip t.cursor.toList).map Prod.snd = t.cursor.toList :=
      List.map_snd_zip (by simp [hcursor])
    have hcursors : t.search.cursors = t.cursor.toList := by
      simpa [Search.cursors, search, Function.comp_def] using hsnd
    rw [Search.lists, hcursors, Array.toArray_toList]
  case order => simp [Search.lists, search, Search.order]

/-- A sound traversal is a consistent search, written out. -/
theorem Sound.exists_search (h : t.Sound) : ∃ s : Search, s.Consistent ∧ s.lists = t :=
  ⟨t.search, Search.consistent_of_sound (by rwa [h.lists_search]), h.lists_search⟩

/-! ## Operations -/

/-- What is done with a traversal. -/
inductive Operation where
  | push (node : Nat)
  | pop
  | cycleFrom (node : Nat)
  | visit (root : Nat)
  deriving DecidableEq, Repr

/-- The traversal after an operation, if this finds all that it looks for.  To pop when there is
nothing on the stack fails and leaves the traversal as it was. -/
def perform (t : Traversal) : Operation → Option Traversal
  | .push node => t.push node
  | .pop =>
    match t.pop with
    | .ok next => some next
    | .error _ => some t
  | .cycleFrom node => (t.cycleFrom node).map fun _ => t
  | .visit root => (t.visit root).map Prod.fst

/-- The traversal after operations, one after the other. -/
def after (t : Traversal) (ops : List Operation) : Option Traversal := ops.foldlM perform t

/-- Whether an operation is called for: only nodes that are unvisited are pushed or visited. -/
def Allows (t : Traversal) : Operation → Prop
  | .push node => t.state[node]? = some .unvisited
  | .pop => True
  | .cycleFrom node => node < t.graph.size
  | .visit root => t.state[root]? = some .unvisited

/-- Whether operations are called for, each when its turn comes. -/
def AllowsAll (t : Traversal) : List Operation → Prop
  | [] => True
  | op :: rest => t.Allows op ∧ ∀ next, t.perform op = some next → next.AllowsAll rest

theorem AllowsAll.cons {op : Operation} {next : Traversal} {rest : List Operation}
    (hop : t.Allows op) (hnext : t.perform op = some next) (hrest : next.AllowsAll rest) :
    t.AllowsAll (op :: rest) := by
  refine ⟨hop, fun next' hnext' => ?_⟩
  rw [hnext, Option.some.injEq] at hnext'
  exact hnext' ▸ hrest

/-- There is nothing to pop just when the stack is empty. -/
theorem Sound.pop_eq_error_iff (h : t.Sound) :
    t.pop = .error (.defect .noOpenNode) ↔ t.stack = #[] := by
  obtain ⟨s, -, rfl⟩ := h.exists_search
  cases hf : s.frames with
  | nil =>
    rw [Search.pop_lists_of_nil hf]
    simp [Search.lists, Search.stack, hf]
  | cons frame below =>
    rw [Search.pop_lists hf]
    simp [Search.lists, Search.stack, hf]

/-- An operation that is called for finds all that it looks for, keeps a traversal sound, and leaves
the graph as it is. -/
theorem Sound.perform (h : t.Sound) (hin : t.graph.InRange) {op : Operation} (hop : t.Allows op) :
    ∃ next, t.perform op = some next ∧ next.Sound ∧ next.graph = t.graph := by
  obtain ⟨s, hs, rfl⟩ := h.exists_search
  cases op with
  | push node =>
    obtain ⟨hsize, hnew⟩ := Search.unvisited_of_state_lists hop
    exact ⟨_, Search.push_lists hsize, (hs.enter hsize hnew).sound, rfl⟩
  | pop =>
    cases hf : s.frames with
    | nil => exact ⟨_, by rw [Traversal.perform, Search.pop_lists_of_nil hf], h, rfl⟩
    | cons frame below =>
      exact ⟨_, by rw [Traversal.perform, Search.pop_lists hf], (hs.close hf).sound, rfl⟩
  | cycleFrom node =>
    exact ⟨_, by rw [Traversal.perform, Search.cycleFrom_lists hop, Option.map_some], h, rfl⟩
  | visit root =>
    obtain ⟨hsize, hnew⟩ := Search.unvisited_of_state_lists hop
    obtain ⟨hvisit, hlast, hgraph⟩ := hs.explore hin hsize hnew
    exact ⟨_, by rw [Traversal.perform, hvisit, Option.map_some], hlast.sound, hgraph⟩

/-- So do the first of many operations, however many of them are done. -/
theorem Sound.after (h : t.Sound) (hin : t.graph.InRange) {ops done : List Operation}
    (hops : t.AllowsAll ops) (hdone : done <+: ops) :
    ∃ last, t.after done = some last ∧ last.Sound ∧ last.graph = t.graph := by
  induction done generalizing t ops with
  | nil => exact ⟨t, rfl, h, rfl⟩
  | cons op done ih =>
    obtain ⟨more, rfl⟩ := hdone
    obtain ⟨hop, hrest⟩ := hops
    obtain ⟨next, hperform, hnext, hgraph⟩ := h.perform hin hop
    obtain ⟨last, hafter, hlast, hsame⟩ :=
      ih hnext (hgraph ▸ hin) (hrest next hperform) (List.prefix_append done more)
    refine ⟨last, ?_, hlast, hsame.trans hgraph⟩
    rw [Traversal.after, List.foldlM_cons, hperform]
    exact hafter

theorem sound_start (g : Graph) : (start g).Sound :=
  Search.lists_start g ▸ (Search.consistent_start g).sound

/-! ## Main result -/

/-- **Traversals stay sound in any hands**: over a graph that has all its needs, whatever operations
are done with a traversal that has not begun, if only nodes that are unvisited by then are pushed or
visited, each of them finds all that it looks for, and after every single one the five lists agree.
To pop fails just when the stack is empty. -/
theorem sound_after (hin : g.InRange) {ops done : List Operation}
    (hops : (start g).AllowsAll ops) (hdone : done <+: ops) :
    ∃ t, (start g).after done = some t ∧ t.graph = g ∧ t.Sound ∧
      (t.pop = .error (.defect .noOpenNode) ↔ t.stack = #[]) := by
  obtain ⟨t, hafter, hsound, hgraph⟩ := (sound_start g).after hin hops hdone
  exact ⟨t, hafter, hgraph, hsound, hsound.pop_eq_error_iff⟩

/-- Nothing to pop, a visit that meets a cycle, and another one from where it stopped. -/
theorem sound_after_loop :
    let g : Graph := ⟨#[[1], [2, 0], [], [2]]⟩
    let done : List Operation := [.pop, .push 0, .visit 1]
    let ops := done ++ [.cycleFrom 3, .pop, .visit 3, .pop]
    g.InRange ∧ (start g).AllowsAll ops ∧ done <+: ops ∧
    ((start g).after done).map Traversal.stack = some #[0, 1] ∧
    ∃ t, (start g).after done = some t ∧ t.graph = g ∧ t.Sound ∧
      (t.pop = .error (.defect .noOpenNode) ↔ t.stack = #[]) := by
  intro g done ops
  have hin : g.InRange := by decide
  have hops : (start g).AllowsAll ops := by
    refine .cons trivial rfl (.cons rfl rfl (.cons rfl (by cbv) ?_))
    exact .cons (by cbv) rfl (.cons trivial rfl (.cons rfl (by cbv) (.cons trivial rfl trivial)))
  have hdone : done <+: ops := List.prefix_append _ _
  exact ⟨hin, hops, hdone, by cbv, sound_after hin hops hdone⟩

end Traversal

end ContainerFlow
