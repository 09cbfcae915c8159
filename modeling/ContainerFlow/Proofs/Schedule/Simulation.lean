/-
ContainerFlow.Proofs.Schedule.Simulation — the search with a stack of
its own does what the recursive search does.

`Search.At` says where a search is in terms of the recursion: its stack
is the path and its order the finished nodes.  `settle_visit` is the
simulation: working off the needs that the innermost open node still
has is one recursive visit of them.  When the visit succeeds, the stack
machine comes back to the same frame, its cursor at the end; when it
fails, the stack machine stops with the same loop.  The induction is on
the recursion of `Graph.visit`, with the stack machine generalised to
any height, so the frames below never matter.

`exploreAll_visit` and `order_eq_recursiveOrder` carry this from one
frame to one root, and from there to all roots.
-/
import ContainerFlow.Proofs.Schedule.Recursion
import ContainerFlow.Proofs.Schedule.Traversal

namespace ContainerFlow.Search

variable {s next : Search} {frame : Frame} {below : List Frame} {base need : Nat}

/-! ## What a step does to `settle` -/

theorem settle_of_running (h : s.step base = .running next) :
    s.settle base = next.settle base := by
  rw [settle]
  split <;> simp_all

theorem settle_of_length_le (h : s.frames.length ≤ base) : s.settle base = (s, none) := by
  have hstep := step_of_length_le h
  rw [settle]
  split <;> simp_all

/-- All needs of the innermost open node have been followed: it is finished. -/
theorem settle_of_end (hf : s.frames = frame :: below) (hbase : base ≤ below.length)
    (hneed : (s.graph.needsOf frame.node)[frame.cursor]? = none) :
    s.settle base = (s.close frame below).settle base := by
  refine settle_of_running ?_
  simp [step, hf, hneed, Nat.not_lt.mpr hbase]

/-- The next need is finished: it is passed over. -/
theorem settle_of_finished (hf : s.frames = frame :: below) (hbase : base ≤ below.length)
    (hneed : (s.graph.needsOf frame.node)[frame.cursor]? = some need)
    (hmark : s.mark need = .finished) :
    s.settle base = (s.follow frame below).settle base := by
  refine settle_of_running ?_
  simp [step, hf, hneed, hmark, Nat.not_lt.mpr hbase]

/-- The next need is unvisited: it is opened. -/
theorem settle_of_unvisited (hf : s.frames = frame :: below) (hbase : base ≤ below.length)
    (hneed : (s.graph.needsOf frame.node)[frame.cursor]? = some need)
    (hmark : s.mark need = .unvisited) :
    s.settle base = ((s.follow frame below).enter need).settle base := by
  refine settle_of_running ?_
  simp [step, hf, hneed, hmark, Nat.not_lt.mpr hbase]

/-- The next need is open: this is a loop. -/
theorem settle_of_onStack {height : Nat} (hf : s.frames = frame :: below)
    (hbase : base ≤ below.length)
    (hneed : (s.graph.needsOf frame.node)[frame.cursor]? = some need)
    (hmark : s.mark need = .onStack height) :
    s.settle base = (s.follow frame below, some ((s.follow frame below).loopFrom need)) := by
  have hstep : s.step base
      = .looped (s.follow frame below) ((s.follow frame below).loopFrom need) := by
    simp [step, hf, hneed, hmark, Nat.not_lt.mpr hbase]
  rw [settle]
  split <;> simp_all

/-! ## Where a search is in the recursion -/

/-- The search is where the recursive search is that has `path` under way and `finished` done. -/
structure At (s : Search) (g : Graph) (path finished : List Nat) : Prop where
  consistent : s.Consistent
  graph : s.graph = g
  stack : s.stack = path
  order : s.order = finished

theorem drop_eq_dropWhile_of_getElem? {nodes : List Nat} (hd : nodes.Nodup) {node i : Nat}
    (h : nodes[i]? = some node) : nodes.drop i = nodes.dropWhile (· ≠ node) := by
  induction nodes generalizing i with
  | nil => simp at h
  | cons a rest ih =>
    cases i with
    | zero =>
      cases h
      simp
    | succ i =>
      have hrest : rest[i]? = some node := h
      have ha : a ≠ node := fun heq =>
        (List.nodup_cons.mp hd).1 (heq ▸ List.mem_of_getElem? hrest)
      simpa [ha] using ih (List.nodup_cons.mp hd).2 hrest

namespace At

variable {g : Graph} {path finished : List Nat}

theorem mark_finished_iff (h : s.At g path finished) (node : Nat) :
    s.mark node = .finished ↔ node ∈ finished := by
  rw [h.consistent.finished_iff, h.order]

theorem mark_onStack (h : s.At g path finished) {node : Nat} (hn : node ∈ path) :
    ∃ height, s.mark node = .onStack height :=
  (h.consistent.mem_stack_iff node).mp (h.stack ▸ hn)

theorem mark_unvisited (h : s.At g path finished) {node : Nat} (hf : node ∉ finished)
    (hp : node ∉ path) : s.mark node = .unvisited :=
  (h.consistent.unvisited_iff node).mpr ⟨h.order ▸ hf, h.stack ▸ hp⟩

/-- The part of the stack that a loop is made of is that part of the path. -/
theorem loopFrom_eq (h : s.At g path finished) {node : Nat} (hn : node ∈ path) :
    s.loopFrom node = path.dropWhile (· ≠ node) := by
  obtain ⟨height, hmark⟩ := h.mark_onStack hn
  have hget := (h.consistent.onStack_iff node height).mp hmark
  rw [← h.stack, ← drop_eq_dropWhile_of_getElem? h.consistent.nodup_stack hget]
  simp [loopFrom, height?, hmark]

theorem follow (h : s.At g path finished) (hf : s.frames = frame :: below)
    (hneed : (g.needsOf frame.node)[frame.cursor]? = some need) :
    (s.follow frame below).At g path finished where
  consistent := h.consistent.follow hf (by
    rw [h.graph]
    exact (List.getElem?_eq_some_iff.mp hneed).1)
  graph := h.graph
  stack := (stack_follow hf).trans h.stack
  order := h.order

theorem enter (h : s.At g path finished) {node : Nat} (hsize : node < g.size)
    (hf : node ∉ finished) (hp : node ∉ path) :
    (s.enter node).At g (path ++ [node]) finished where
  consistent := h.consistent.enter (h.graph ▸ hsize) (h.mark_unvisited hf hp)
  graph := h.graph
  stack := by rw [stack_enter, h.stack]
  order := h.order

theorem close (h : s.At g (path ++ [frame.node]) finished) (hf : s.frames = frame :: below) :
    (s.close frame below).At g path (finished ++ [frame.node]) where
  consistent := h.consistent.close hf
  graph := h.graph
  stack := List.append_cancel_right ((stack_close hf).trans h.stack)
  order := by rw [order_close, h.order]

end At

/-! ## The simulation -/

theorem getElem?_of_drop_eq_cons {nodes rest : List Nat} {node i : Nat}
    (h : nodes.drop i = node :: rest) : nodes[i]? = some node ∧ nodes.drop (i + 1) = rest := by
  rw [← List.head?_drop, ← List.tail_drop, h]
  exact ⟨rfl, rfl⟩

/-- Working off the needs that the innermost open node still has is a recursive visit of them. -/
theorem settle_visit {g : Graph} (hin : g.InRange) {path nodes finished : List Nat}
    {top cursor : Nat} (hs : s.At g path finished) (hf : s.frames = ⟨top, cursor⟩ :: below)
    (hnodes : (g.needsOf top).drop cursor = nodes) (hbase : base ≤ below.length) :
    match g.visit path nodes finished with
    | .ok out => ∃ next : Search, next.At g path out ∧
        next.frames = ⟨top, (g.needsOf top).length⟩ :: below ∧
        s.settle base = next.settle base
    | .error loop => ∃ next : Search, s.settle base = (next, some loop) := by
  fun_induction Graph.visit g path nodes finished generalizing s top cursor below with
  | case1 path finished =>
    have hle : cursor ≤ (g.needsOf top).length :=
      hs.graph ▸ hs.consistent.cursor_le ⟨top, cursor⟩ (by simp [hf])
    have heq : cursor = (g.needsOf top).length :=
      Nat.le_antisymm hle (List.drop_eq_nil_iff.mp hnodes)
    exact ⟨s, hs, by rw [hf, ← heq], rfl⟩
  | case2 path node rest finished hmem ih =>
    obtain ⟨hneed, hrest⟩ := getElem?_of_drop_eq_cons hnodes
    rw [settle_of_finished hf hbase (by rwa [hs.graph]) ((hs.mark_finished_iff node).mpr hmem)]
    exact ih (hs.follow hf hneed) rfl hrest hbase
  | case3 path node rest finished hmem hpath =>
    obtain ⟨hneed, -⟩ := getElem?_of_drop_eq_cons hnodes
    obtain ⟨height, hmark⟩ := hs.mark_onStack hpath
    rw [settle_of_onStack hf hbase (by rwa [hs.graph]) hmark,
      (hs.follow hf hneed).loopFrom_eq hpath]
    exact ⟨_, rfl⟩
  | case4 path node rest finished hmem hpath later hvisit ihneeds ihrest =>
    obtain ⟨hneed, hrest⟩ := getElem?_of_drop_eq_cons hnodes
    have hfollow := hs.follow hf hneed
    have hsize : node < g.size := hin _ _ (List.mem_of_getElem? hneed)
    have hneeds := ihneeds (hfollow.enter hsize hmem hpath) rfl rfl (Nat.le_succ_of_le hbase)
    rw [hvisit] at hneeds
    obtain ⟨back, hback, hframes, hsettle⟩ := hneeds
    -- The need is opened, what it needs is worked off, and it is finished; then come the others.
    rw [settle_of_unvisited hf hbase (by rwa [hs.graph]) (hs.mark_unvisited hmem hpath), hsettle,
      settle_of_end hframes (Nat.le_succ_of_le hbase) (by simp [hback.graph])]
    exact ihrest (hback.close hframes) rfl hrest hbase
  | case5 path node rest finished hmem hpath loop hvisit ih =>
    obtain ⟨hneed, -⟩ := getElem?_of_drop_eq_cons hnodes
    have hfollow := hs.follow hf hneed
    have hsize : node < g.size := hin _ _ (List.mem_of_getElem? hneed)
    have hneeds := ih (hfollow.enter hsize hmem hpath) rfl rfl (Nat.le_succ_of_le hbase)
    rw [hvisit] at hneeds
    rw [settle_of_unvisited hf hbase (by rwa [hs.graph]) (hs.mark_unvisited hmem hpath)]
    exact hneeds

/-- Exploring a node is a recursive visit of what it needs, after which the node is finished. -/
theorem explore_visit {g : Graph} (hin : g.InRange) {path finished : List Nat} {root : Nat}
    (hs : s.At g path finished) (hsize : root < g.size) (hf : root ∉ finished)
    (hp : root ∉ path) :
    match g.visit (path ++ [root]) (g.needsOf root) finished with
    | .ok out => ∃ next : Search, next.At g path (out ++ [root]) ∧ next.frames = s.frames ∧
        s.explore root = (next, none)
    | .error loop => ∃ next : Search, s.explore root = (next, some loop) := by
  have hvisit := settle_visit hin (hs.enter hsize hf hp) rfl List.drop_zero
    (Nat.le_refl s.frames.length)
  cases hneeds : g.visit (path ++ [root]) (g.needsOf root) finished with
  | error loop =>
    rw [hneeds] at hvisit
    exact hvisit
  | ok out =>
    rw [hneeds] at hvisit
    obtain ⟨back, hback, hframes, hsettle⟩ := hvisit
    refine ⟨_, hback.close hframes, rfl, ?_⟩
    rw [explore, hsettle, settle_of_end hframes (Nat.le_refl _) (by simp [hback.graph])]
    exact settle_of_length_le (Nat.le_refl _)

/-- Exploring nodes in turn, from an empty stack, is a recursive visit of them. -/
theorem exploreAll_visit {g : Graph} (hin : g.InRange) {roots finished : List Nat}
    (hs : s.At g [] finished) (hroots : ∀ root ∈ roots, root < g.size) :
    match g.visit [] roots finished with
    | .ok out => ∃ next : Search, next.At g [] out ∧ s.exploreAll roots = (next, none)
    | .error loop => ∃ next : Search, s.exploreAll roots = (next, some loop) := by
  induction roots generalizing s finished with
  | nil =>
    rw [Graph.visit]
    exact ⟨s, hs, rfl⟩
  | cons root rest ih =>
    obtain ⟨hsize, hrest⟩ := List.forall_mem_cons.mp hroots
    rw [Graph.visit]
    by_cases hmem : root ∈ finished
    · rw [if_pos hmem, exploreAll, (hs.mark_finished_iff root).mpr hmem]
      exact ih hs hrest
    · have hpath : root ∉ ([] : List Nat) := List.not_mem_nil
      rw [if_neg hmem, if_neg hpath, exploreAll, hs.mark_unvisited hmem hpath]
      have hexplore := explore_visit hin hs hsize hmem hpath
      cases hneeds : g.visit ([] ++ [root]) (g.needsOf root) finished with
      | error loop =>
        rw [hneeds] at hexplore
        obtain ⟨next, heq⟩ := hexplore
        simp only [heq]
        exact ⟨next, rfl⟩
      | ok out =>
        rw [hneeds] at hexplore
        obtain ⟨next, hnext, -, heq⟩ := hexplore
        simp only [heq]
        exact ih hnext hrest

theorem at_start (g : Graph) : (start g).At g [] [] where
  consistent := consistent_start g
  graph := rfl
  stack := rfl
  order := rfl

end ContainerFlow.Search

namespace ContainerFlow.Graph

/-- The order that the scheduler finds, or the loop, is that of the recursive search. -/
theorem order_eq_recursiveOrder {g : Graph} (hin : g.InRange) : g.order = g.recursiveOrder := by
  have hall := Search.exploreAll_visit hin (Search.at_start g)
    (fun root hroot => List.mem_range.mp hroot)
  rw [order_eq_answer hin, recursiveOrder]
  cases hvisit : g.visit [] (List.range g.size) [] with
  | error loop =>
    rw [hvisit] at hall
    obtain ⟨next, heq⟩ := hall
    rw [heq, Search.answer]
  | ok out =>
    rw [hvisit] at hall
    obtain ⟨next, hnext, heq⟩ := hall
    rw [heq, Search.answer, hnext.order]

end ContainerFlow.Graph
