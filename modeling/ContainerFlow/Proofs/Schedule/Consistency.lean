/-
ContainerFlow.Proofs.Schedule.Consistency — what the parts of a search
under way have to do with one another.

The marks, the stack and the list of finished nodes say the same thing
three times.  `Search.Consistent` is that they agree, and that no cursor
is past the needs of its node.  A search begins in this state, and
opening a node, following a need and finishing a node keep it
(`Consistent.enter`, `Consistent.follow`, `Consistent.close`).
-/
import Mathlib.Data.List.Nodup
import ContainerFlow.Proofs.Schedule.Graph

namespace ContainerFlow.Search

variable {s : Search}

/-! ## Marks -/

/-- What is not a node of the graph stays unvisited. -/
theorem mark_of_size_le {node : Nat} (h : s.graph.size ≤ node) : s.mark node = .unvisited := by
  have hnone : s.marks[node]? = none := Array.getElem?_eq_none_iff.mpr (s.sized ▸ h)
  simp [mark, hnone]

theorem lt_size_of_mark {node : Nat} (h : s.mark node ≠ .unvisited) : node < s.graph.size := by
  by_contra hle
  exact h (mark_of_size_le (Nat.le_of_not_lt hle))

theorem mark_start (g : Graph) (node : Nat) : (start g).mark node = .unvisited := by
  simp only [mark, start, Array.getElem?_replicate]
  split <;> rfl

theorem mark_setMark {node : Nat} (h : node < s.graph.size) (m : Mark) (a : Nat) :
    (s.setMark node m).mark a = if a = node then m else s.mark a := by
  have hsize : node < s.marks.size := s.sized ▸ h
  simp only [mark, setMark, Array.getElem?_setIfInBounds]
  by_cases ha : a = node
  · subst ha
    simp [hsize]
  · simp [ha, Ne.symm ha]

theorem mark_enter {node : Nat} (h : node < s.graph.size) (a : Nat) :
    (s.enter node).mark a = if a = node then .onStack s.frames.length else s.mark a :=
  mark_setMark h _ a

theorem mark_close {frame : Frame} (h : frame.node < s.graph.size) (below : List Frame) (a : Nat) :
    (s.close frame below).mark a = if a = frame.node then .finished else s.mark a :=
  mark_setMark h _ a

/-! ## The stack and the order -/

theorem getElem?_snoc_eq_some_iff {nodes : List Nat} {node a i : Nat} :
    (nodes ++ [node])[i]? = some a ↔ nodes[i]? = some a ∨ i = nodes.length ∧ a = node := by
  rcases Nat.lt_trichotomy i nodes.length with hlt | rfl | hgt
  · simp [List.getElem?_append_left hlt, Nat.ne_of_lt hlt]
  · simp [eq_comm]
  · have hsnoc : (nodes ++ [node])[i]? = none := List.getElem?_eq_none (by simp; omega)
    have hnone : nodes[i]? = none := List.getElem?_eq_none (Nat.le_of_lt hgt)
    simp [hsnoc, hnone, Nat.ne_of_gt hgt]

theorem length_stack (s : Search) : s.stack.length = s.frames.length := by simp [stack]

theorem stack_of_frames {frame : Frame} {below : List Frame} (h : s.frames = frame :: below) :
    s.stack = (below.map Frame.node).reverse ++ [frame.node] := by
  simp [stack, h]

theorem stack_enter (s : Search) (node : Nat) : (s.enter node).stack = s.stack ++ [node] := by
  simp [stack, enter]

theorem stack_follow {frame : Frame} {below : List Frame} (h : s.frames = frame :: below) :
    (s.follow frame below).stack = s.stack := by
  simp [stack, follow, h]

theorem stack_close {frame : Frame} {below : List Frame} (h : s.frames = frame :: below) :
    (s.close frame below).stack ++ [frame.node] = s.stack := by
  simp [stack, close, h]

theorem order_enter (s : Search) (node : Nat) : (s.enter node).order = s.order := rfl

theorem order_close (s : Search) (frame : Frame) (below : List Frame) :
    (s.close frame below).order = s.order ++ [frame.node] := by
  simp [order, close]

theorem step_of_length_le {base : Nat} (h : s.frames.length ≤ base) :
    s.step base = .settled := by
  cases hf : s.frames with
  | nil => simp [step, hf]
  | cons frame below =>
    have hlt : below.length < base := by
      rw [hf] at h
      exact h
    simp [step, hf, hlt]

/-! ## Consistent searches -/

/-- The marks, the stack and the order agree, and no cursor is past the needs of its node. -/
structure Consistent (s : Search) : Prop where
  finished_iff : ∀ node, s.mark node = .finished ↔ node ∈ s.order
  onStack_iff : ∀ node height, s.mark node = .onStack height ↔ s.stack[height]? = some node
  distinct : s.order.Nodup
  cursor_le : ∀ frame ∈ s.frames, frame.cursor ≤ (s.graph.needsOf frame.node).length

theorem consistent_start (g : Graph) : (start g).Consistent where
  finished_iff node := by
    rw [mark_start]
    simp [order, start]
  onStack_iff node height := by
    rw [mark_start]
    simp [stack, start]
  distinct := List.nodup_nil
  cursor_le _ h := by cases h

namespace Consistent

theorem mem_stack_iff (h : s.Consistent) (node : Nat) :
    node ∈ s.stack ↔ ∃ height, s.mark node = .onStack height := by
  simp only [List.mem_iff_getElem?, h.onStack_iff]

/-- No node is on the stack twice: its mark tells one height only. -/
theorem nodup_stack (h : s.Consistent) : s.stack.Nodup := by
  refine List.nodup_iff_getElem?_ne_getElem?.mpr fun i j hij hj heq => ?_
  obtain ⟨node, hnode⟩ : ∃ node, s.stack[j]? = some node :=
    ⟨_, List.getElem?_eq_getElem hj⟩
  have hi := (h.onStack_iff node i).mpr (heq.trans hnode)
  rw [(h.onStack_iff node j).mpr hnode] at hi
  cases hi
  omega

theorem unvisited_iff (h : s.Consistent) (node : Nat) :
    s.mark node = .unvisited ↔ node ∉ s.order ∧ node ∉ s.stack := by
  rw [← h.finished_iff, h.mem_stack_iff]
  cases s.mark node <;> simp

/-- The innermost open node is marked as open at the top of the stack. -/
theorem mark_top (h : s.Consistent) {frame : Frame} {below : List Frame}
    (hf : s.frames = frame :: below) : s.mark frame.node = .onStack below.length := by
  rw [h.onStack_iff, stack_of_frames hf]
  simp

/-- Opening a node that is unvisited keeps a search consistent. -/
theorem enter (h : s.Consistent) {node : Nat} (hsize : node < s.graph.size)
    (hnew : s.mark node = .unvisited) : (s.enter node).Consistent where
  finished_iff a := by
    have hnode := ((h.unvisited_iff node).mp hnew).1
    rw [mark_enter hsize, order_enter]
    by_cases ha : a = node
    · simp [ha, hnode]
    · simpa [ha] using h.finished_iff a
  onStack_iff a height := by
    have hnode := ((h.unvisited_iff node).mp hnew).2
    rw [mark_enter hsize, stack_enter, getElem?_snoc_eq_some_iff, length_stack]
    by_cases ha : a = node
    · have hnone : s.stack[height]? ≠ some node := fun he => hnode (List.mem_of_getElem? he)
      simp [ha, hnone, eq_comm]
    · simpa [ha] using h.onStack_iff a height
  distinct := h.distinct
  cursor_le frame hframe := by
    rcases List.mem_cons.mp hframe with rfl | hframe
    · exact Nat.zero_le _
    · exact h.cursor_le frame hframe

/-- Following a need of the innermost open node keeps a search consistent. -/
theorem follow (h : s.Consistent) {frame : Frame} {below : List Frame}
    (hf : s.frames = frame :: below)
    (hlt : frame.cursor < (s.graph.needsOf frame.node).length) :
    (s.follow frame below).Consistent where
  finished_iff := h.finished_iff
  onStack_iff node height := by
    rw [stack_follow hf]
    exact h.onStack_iff node height
  distinct := h.distinct
  cursor_le f hfr := by
    rcases List.mem_cons.mp hfr with rfl | hfr
    · exact hlt
    · exact h.cursor_le f (hf ▸ List.mem_cons_of_mem _ hfr)

/-- Finishing the innermost open node keeps a search consistent. -/
theorem close (h : s.Consistent) {frame : Frame} {below : List Frame}
    (hf : s.frames = frame :: below) : (s.close frame below).Consistent := by
  have htop := h.mark_top hf
  have hsize : frame.node < s.graph.size := lt_size_of_mark (by simp [htop])
  have hnew : frame.node ∉ s.order := fun hm => by
    simp [(h.finished_iff _).mpr hm] at htop
  have hbelow : frame.node ∉ (s.close frame below).stack := by
    have hdistinct := h.nodup_stack
    rw [← stack_close hf, List.nodup_append] at hdistinct
    exact fun hm => hdistinct.2.2 _ hm _ (by simp) rfl
  refine ⟨fun a => ?_, fun a height => ?_, ?_, fun f hfr => ?_⟩
  · rw [mark_close hsize, order_close]
    by_cases ha : a = frame.node
    · simp [ha]
    · simpa [ha] using h.finished_iff a
  · have hold := h.onStack_iff a height
    rw [← stack_close hf, getElem?_snoc_eq_some_iff] at hold
    rw [mark_close hsize]
    by_cases ha : a = frame.node
    · have hnone : (s.close frame below).stack[height]? ≠ some frame.node :=
        fun he => hbelow (List.mem_of_getElem? he)
      simp [ha, hnone]
    · simpa [ha] using hold
  · rw [order_close]
    exact List.nodup_append.mpr ⟨h.distinct, by simp, by grind⟩
  · exact h.cursor_le f (hf ▸ List.mem_cons_of_mem _ hfr)

end Consistent

end ContainerFlow.Search
