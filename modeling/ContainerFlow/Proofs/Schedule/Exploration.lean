/-
ContainerFlow.Proofs.Schedule.Exploration — what the visit of one node
does to a traversal, wherever the traversal stands.

The traversal may be under way already, with nodes in progress and others
done in whatever order.  All that is asked of it is that it is sound and
that what a node needs that is done is done too.  Then

* a visit that meets no cycle leaves the stack and its cursors as they
  were, and gets done exactly what the node leads to and was not done
  before, everything after what it needs (`Traversal.Finishes`);
* one that meets a cycle leaves behind, on top of the old stack, a path of
  needs from the node on, at whose end there is a need that is on the
  stack (`Traversal.Breaks`).

The steps in between are followed on the search that the traversal is.
`Search.Underway` is the invariant that they keep, and has a lemma for
each of them.  The part of it that carries the argument is `Passed`: the
needs that an open node has behind it are finished, or they lie above it
on the stack.  So when a node is on top, they are finished, all of them.
-/
import Mathlib
import ContainerFlow.Proofs.Schedule.Operations

namespace ContainerFlow

open Relation (ReflTransGen)

/-! ## Orders that go on -/

/-- Each of `nodes` stands after what it needs, in so far as that is not in `done`. -/
def Graph.OrderedAfter (g : Graph) (done nodes : List Nat) : Prop :=
  ∀ before node after, nodes = before ++ node :: after →
    ∀ need, g.Needs node need → need ∈ done ++ before

theorem Graph.OrderedAfter.snoc {g : Graph} {done nodes : List Nat} {node : Nat}
    (h : g.OrderedAfter done nodes) (hneeds : ∀ need, g.Needs node need → need ∈ done ++ nodes) :
    g.OrderedAfter done (nodes ++ [node]) := by
  intro before a after hsplit
  rcases List.eq_nil_or_concat' after with rfl | ⟨after, last, rfl⟩
  · obtain ⟨rfl, hnode⟩ := List.append_inj' hsplit rfl
    cases hnode
    exact hneeds
  · rw [← List.cons_append, ← List.append_assoc] at hsplit
    exact h before a after (List.append_inj' hsplit rfl).1

/-- Together with what was there, provided that this was closed under needs, such nodes have all
that a node of theirs leads to. -/
theorem Graph.OrderedAfter.mem_of_reflTransGen {g : Graph} {done nodes : List Nat}
    (h : g.OrderedAfter done nodes) (hclosed : ∀ a ∈ done, ∀ b, g.Needs a b → b ∈ done)
    {root node : Nat} (hroot : root ∈ done ++ nodes) (hnode : ReflTransGen g.Needs root node) :
    node ∈ done ++ nodes := by
  induction hnode with
  | refl => exact hroot
  | @tail a b _ hneed ih =>
    rcases List.mem_append.mp ih with ha | ha
    · exact List.mem_append_left _ (hclosed a ha b hneed)
    · obtain ⟨before, after, rfl⟩ := List.append_of_mem ha
      rcases List.mem_append.mp (h before a after rfl b hneed) with hb | hb
      · exact List.mem_append_left _ hb
      · exact List.mem_append_right _ (List.mem_append_left _ hb)

namespace Traversal

/-- From the traversal `t` the visit of `root` has come to the traversal `next`, without a cycle. -/
structure Finishes (t : Traversal) (root : Nat) (next : Traversal) : Prop where
  stack : next.stack = t.stack
  cursor : next.cursor = t.cursor
  /-- Nodes that were in progress still are, and have the place that they had. -/
  stillOpen : ∀ node : Nat, t.state[node]? = some .inProgress →
    next.state[node]? = some .inProgress ∧ next.position[node]? = t.position[node]?
  /-- The order grows by what the root leads to and was not done. -/
  order : ∃ grown, next.order.toList = t.order.toList ++ grown ∧ grown.Nodup ∧
    (∀ node, node ∈ grown ↔
      ReflTransGen t.graph.Needs root node ∧ t.state[node]? ≠ some .done) ∧
    t.graph.OrderedAfter t.order.toList grown

/-- From the traversal `t` the visit of `root` has come to the traversal `next`, where it met the
cycle `nodes`. -/
structure Breaks (t : Traversal) (root : Nat) (next : Traversal) (nodes : List Nat) : Prop where
  /-- On top of the old stack, with its cursors, lies a path of needs from the root on. -/
  stack : ∃ path cursors, next.stack.toList = t.stack.toList ++ path ∧
    next.cursor.toList = t.cursor.toList ++ cursors ∧
    path.head? = some root ∧ path.IsChain t.graph.Needs
  /-- The node on top needs a node of the stack, and the cycle is the stack from there on. -/
  nodes : ∃ top need height, next.stack.toList.getLast? = some top ∧ t.graph.Needs top need ∧
    next.stack.toList[height]? = some need ∧ nodes = next.stack.toList.drop height

end Traversal

namespace Search

variable {s now : Search} {root : Nat} {frame : Frame} {below opened : List Frame}
  {grown : List Nat} {node need : Nat}

/-! ## Needs that have been followed -/

/-- The need is finished, or lies above the node on the stack. -/
def Passed (s : Search) (node need : Nat) : Prop :=
  s.mark need = .finished ∨
    ∃ low high, s.mark node = .onStack low ∧ s.mark need = .onStack high ∧ low < high

theorem Passed.enter (h : s.Passed node need) {new : Nat} (hsize : new < s.graph.size)
    (hnew : s.mark new = .unvisited) : (s.enter new).Passed node need := by
  have hkeep : ∀ a, s.mark a ≠ .unvisited → (s.enter new).mark a = s.mark a := by
    intro a ha
    rw [mark_enter hsize, if_neg]
    rintro rfl
    exact ha hnew
  rcases h with hneed | ⟨low, high, hnode, hneed, hlt⟩
  · exact .inl ((hkeep need (by simp [hneed])).trans hneed)
  · exact .inr ⟨low, high, (hkeep node (by simp [hnode])).trans hnode,
      (hkeep need (by simp [hneed])).trans hneed, hlt⟩

/-- A node that is opened lies above the one that was on top before. -/
theorem passed_enter (hs : s.Consistent) (hf : s.frames = frame :: below)
    (hsize : need < s.graph.size) (hnew : s.mark need = .unvisited) :
    (s.enter need).Passed frame.node need := by
  have htop := hs.mark_top hf
  have hne : frame.node ≠ need := by
    intro heq
    rw [heq, hnew] at htop
    cases htop
  refine .inr ⟨below.length, below.length + 1, ?_, ?_, Nat.lt_succ_self _⟩
  · rw [mark_enter hsize, if_neg hne, htop]
  · rw [mark_enter hsize, if_pos rfl, hf, List.length_cons]

theorem Passed.close (h : s.Passed node need) (hsize : frame.node < s.graph.size)
    (hnode : node ≠ frame.node) (below : List Frame) : (s.close frame below).Passed node need := by
  by_cases hneed : need = frame.node
  · exact .inl ((mark_close hsize below need).trans (if_pos hneed))
  · simpa only [Passed, mark_close hsize, if_neg hnode, if_neg hneed] using h

/-- What the node on top of the stack has passed is finished. -/
theorem Passed.finished (h : s.Passed frame.node need) (hs : s.Consistent)
    (hf : s.frames = frame :: below) : s.mark need = .finished := by
  rcases h with hneed | ⟨low, high, hnode, hneed, hlt⟩
  · exact hneed
  · rw [hs.mark_top hf, Mark.onStack.injEq] at hnode
    have hhigh := (List.getElem?_eq_some_iff.mp ((hs.onStack_iff need high).mp hneed)).1
    rw [length_stack, hf, List.length_cons] at hhigh
    omega

/-! ## Explorations under way -/

/-- The exploration of `root` began on the search `s` and has come to the search `now`: it has
opened the frames `opened`, the innermost first, and finished the nodes `grown`. -/
structure Underway (s : Search) (root : Nat) (now : Search) (opened : List Frame)
    (grown : List Nat) : Prop where
  consistent : now.Consistent
  graph : now.graph = s.graph
  frames : now.frames = opened ++ s.frames
  order : now.order = s.order ++ grown
  rooted : (opened.map Frame.node).getLast? = some root ∨ opened = [] ∧ root ∈ grown
  chain : (opened.map Frame.node).reverse.IsChain s.graph.Needs
  passed : ∀ frame ∈ opened, ∀ need ∈ (s.graph.needsOf frame.node).take frame.cursor,
    now.Passed frame.node need
  reached : ∀ node, node ∈ grown ∨ node ∈ opened.map Frame.node →
    ReflTransGen s.graph.Needs root node
  ordered : s.graph.OrderedAfter s.order grown

theorem underway_enter (hs : s.Consistent) (hsize : root < s.graph.size)
    (hnew : s.mark root = .unvisited) : Underway s root (s.enter root) [⟨root, 0⟩] [] where
  consistent := hs.enter hsize hnew
  graph := rfl
  frames := rfl
  order := (List.append_nil _).symm
  rooted := .inl rfl
  chain := List.isChain_singleton _
  passed := by simp
  reached := by simp [ReflTransGen.refl]
  ordered := by simp [Graph.OrderedAfter]

/-- The frame on top of the stack is one of those that have been opened. -/
theorem Underway.exists_opened (h : Underway s root now opened grown)
    (hf : now.frames = frame :: below) (hbase : s.frames.length ≤ below.length) :
    ∃ rest, opened = frame :: rest ∧ below = rest ++ s.frames := by
  have hframes := h.frames
  rw [hf] at hframes
  cases opened with
  | nil =>
    rw [List.nil_append] at hframes
    rw [← hframes, List.length_cons] at hbase
    omega
  | cons first rest =>
    cases hframes
    exact ⟨rest, rfl, rfl⟩

namespace Underway

variable {rest : List Frame}

theorem node_reached (h : Underway s root now (frame :: rest) grown) :
    ReflTransGen s.graph.Needs root frame.node :=
  h.reached frame.node (.inr (by simp))

theorem consistent_follow (h : Underway s root now (frame :: rest) grown)
    (hneed : (s.graph.needsOf frame.node)[frame.cursor]? = some need) :
    (now.follow frame (rest ++ s.frames)).Consistent := by
  refine h.consistent.follow h.frames ?_
  rw [h.graph]
  exact (List.getElem?_eq_some_iff.mp hneed).1

/-- When the next need is followed, the node on top has passed what it had passed, and this need. -/
theorem passed_or_eq (h : Underway s root now (frame :: rest) grown)
    (hneed : (s.graph.needsOf frame.node)[frame.cursor]? = some need) {a : Nat}
    (ha : a ∈ (s.graph.needsOf frame.node).take (frame.cursor + 1)) :
    now.Passed frame.node a ∨ a = need := by
  rw [List.take_add_one, hneed, Option.toList_some, List.mem_append, List.mem_singleton] at ha
  exact ha.imp_left (h.passed frame List.mem_cons_self a)

/-- The node on top of the stack has nothing left to follow: it is finished. -/
theorem close (h : Underway s root now (frame :: rest) grown)
    (hend : (s.graph.needsOf frame.node)[frame.cursor]? = none) :
    Underway s root (now.close frame (rest ++ s.frames)) rest (grown ++ [frame.node]) := by
  have htop := h.consistent.mark_top h.frames
  have hsize : frame.node < now.graph.size := lt_size_of_mark (by simp [htop])
  have horder : (now.close frame (rest ++ s.frames)).order =
      s.order ++ (grown ++ [frame.node]) := by
    rw [order_close, h.order, List.append_assoc]
  refine
    { consistent := h.consistent.close h.frames
      graph := h.graph
      frames := rfl
      order := horder
      rooted := ?rooted
      chain := List.isChain_reverse.mpr (List.isChain_reverse.mp h.chain).tail
      passed := ?passed
      reached := ?reached
      ordered := ?ordered }
  case rooted =>
    have hlast := h.rooted.resolve_right (by simp)
    cases rest with
    | nil =>
      cases hlast
      exact .inr ⟨rfl, by simp⟩
    | cons next rest => exact .inl (by simpa using hlast)
  case passed =>
    intro f hmem need hneed
    have hdistinct := h.consistent.nodup_stack
    rw [stack, h.frames, List.nodup_reverse, List.cons_append, List.map_cons, List.nodup_cons]
      at hdistinct
    have hother : f.node ≠ frame.node := fun heq =>
      hdistinct.1 (heq ▸ List.mem_map_of_mem (List.mem_append_left _ hmem))
    exact (h.passed f (List.mem_cons_of_mem _ hmem) need hneed).close hsize hother _
  case reached =>
    rintro node (hnode | hnode)
    · rcases List.mem_append.mp hnode with hnode | hnode
      · exact h.reached node (.inl hnode)
      · exact List.mem_singleton.mp hnode ▸ h.node_reached
    · exact h.reached node (.inr (List.mem_cons_of_mem _ hnode))
  case ordered =>
    -- The cursor is at the end, so all needs of the node have been passed, and it is on top.
    refine h.ordered.snoc fun need hneed => ?_
    rw [← h.order, ← h.consistent.finished_iff]
    refine (h.passed frame List.mem_cons_self need ?_).finished h.consistent h.frames
    rwa [List.take_of_length_le (List.getElem?_eq_none_iff.mp hend)]

/-- The next need of the node on top of the stack is finished: it is passed over. -/
theorem follow (h : Underway s root now (frame :: rest) grown)
    (hneed : (s.graph.needsOf frame.node)[frame.cursor]? = some need)
    (hmark : now.mark need = .finished) :
    Underway s root (now.follow frame (rest ++ s.frames))
      ({ frame with cursor := frame.cursor + 1 } :: rest) grown where
  consistent := h.consistent_follow hneed
  graph := h.graph
  frames := rfl
  order := h.order
  rooted := h.rooted.imp id (by simp)
  chain := h.chain
  passed f hmem a ha := by
    rcases List.mem_cons.mp hmem with rfl | hmem
    · rcases h.passed_or_eq hneed ha with hpassed | rfl
      · exact hpassed
      · exact .inl hmark
    · exact h.passed f (List.mem_cons_of_mem _ hmem) a ha
  reached := h.reached
  ordered := h.ordered

/-- The next need of the node on top of the stack is unvisited: it is opened. -/
theorem enter (h : Underway s root now (frame :: rest) grown)
    (hneed : (s.graph.needsOf frame.node)[frame.cursor]? = some need)
    (hmark : now.mark need = .unvisited) (hsize : need < s.graph.size) :
    Underway s root ((now.follow frame (rest ++ s.frames)).enter need)
      (⟨need, 0⟩ :: { frame with cursor := frame.cursor + 1 } :: rest) grown := by
  have hneeds : s.graph.Needs frame.node need := List.mem_of_getElem? hneed
  have hfollow := h.consistent_follow hneed
  have hsize' : need < (now.follow frame (rest ++ s.frames)).graph.size := h.graph ▸ hsize
  -- Following a need changes no mark, so what was passed before is still passed.
  have hpassed : ∀ a b, now.Passed a b →
      ((now.follow frame (rest ++ s.frames)).enter need).Passed a b :=
    fun a b hab => Passed.enter (s := now.follow frame (rest ++ s.frames)) hab hsize' hmark
  refine
    { consistent := hfollow.enter hsize' hmark
      graph := h.graph
      frames := rfl
      order := h.order
      rooted := .inl (h.rooted.resolve_right (by simp))
      chain := ?chain
      passed := ?passed
      reached := ?reached
      ordered := h.ordered }
  case chain =>
    exact List.isChain_reverse.mpr
      (List.isChain_cons_cons.mpr ⟨hneeds, List.isChain_reverse.mp h.chain⟩)
  case passed =>
    intro f hmem a ha
    rcases List.mem_cons.mp hmem with rfl | hmem
    · simp at ha
    rcases List.mem_cons.mp hmem with rfl | hmem
    · rcases h.passed_or_eq hneed ha with hold | rfl
      · exact hpassed _ a hold
      · exact passed_enter hfollow rfl hsize' hmark
    · exact hpassed _ a (h.passed f (List.mem_cons_of_mem _ hmem) a ha)
  case reached =>
    rintro node (hnode | hnode)
    · exact h.reached node (.inl hnode)
    · rcases List.mem_cons.mp hnode with rfl | hnode
      · exact h.node_reached.tail hneeds
      · exact h.reached node (.inr hnode)

end Underway

/-! ## Explorations at their end -/

/-- When the stack is as high as before, the exploration is at its end. -/
theorem Underway.finishes (h : Underway s root now opened grown) (hs : s.Consistent)
    (hclosed : ∀ a b, s.mark a = .finished → s.graph.Needs a b → s.mark b = .finished)
    (hbase : now.frames.length ≤ s.frames.length) : s.lists.Finishes root now.lists := by
  have hframes := h.frames
  obtain rfl : opened = [] := by
    rw [hframes, List.length_append] at hbase
    exact List.length_eq_zero_iff.mp (by omega)
  rw [List.nil_append] at hframes
  have hstack : now.stack = s.stack := by rw [stack, stack, hframes]
  have hcursors : now.cursors = s.cursors := by rw [cursors, cursors, hframes]
  have hroot : root ∈ grown := (h.rooted.resolve_left (by simp)).2
  have hdistinct := h.consistent.distinct
  rw [h.order, List.nodup_append'] at hdistinct
  obtain ⟨-, hgrown, hnew⟩ := hdistinct
  simp only [hs.finished_iff] at hclosed
  constructor
  case stack => exact congrArg List.toArray hstack
  case cursor => exact congrArg List.toArray hcursors
  case stillOpen =>
    intro node hnode
    obtain ⟨height, hmark⟩ := state_lists_eq_inProgress_iff.mp hnode
    have hsame : now.mark node = .onStack height := by
      rwa [h.consistent.onStack_iff, hstack, ← hs.onStack_iff]
    exact ⟨state_lists_eq_inProgress_iff.mpr ⟨height, hsame⟩, by
      rw [position_lists_of_onStack hmark, position_lists_of_onStack hsame]⟩
  case order =>
    refine ⟨grown, h.order, hgrown, fun node => ?_, h.ordered⟩
    rw [Ne, state_lists_eq_done_iff, hs.finished_iff]
    refine ⟨fun hmem => ⟨h.reached node (.inl hmem), fun hold => hnew hold hmem⟩, ?_⟩
    rintro ⟨hreach, hold⟩
    have hmem := h.ordered.mem_of_reflTransGen (fun a ha b => hclosed a b ha)
      (List.mem_append_right _ hroot) hreach
    exact (List.mem_append.mp hmem).resolve_left hold

/-- The next need of the node on top of the stack is open: this is a loop. -/
theorem Underway.breaks {rest : List Frame} {height : Nat}
    (h : Underway s root now (frame :: rest) grown)
    (hneed : (s.graph.needsOf frame.node)[frame.cursor]? = some need)
    (hmark : now.mark need = .onStack height) :
    s.lists.Breaks root (now.follow frame (rest ++ s.frames)).lists
      ((now.follow frame (rest ++ s.frames)).loopFrom need) := by
  have hf : now.frames = frame :: (rest ++ s.frames) := h.frames
  have hstack := stack_follow hf
  have hheight : (now.follow frame (rest ++ s.frames)).height? need = some height := by
    rw [height?, show (now.follow frame (rest ++ s.frames)).mark need = .onStack height from hmark]
  have hlast := h.rooted.resolve_right (by simp)
  constructor
  · refine ⟨((frame :: rest).map Frame.node).reverse,
      (({ frame with cursor := frame.cursor + 1 } :: rest).map Frame.cursor).reverse, ?_, ?_, ?_,
      h.chain⟩
    · show (now.follow frame (rest ++ s.frames)).stack = s.stack ++ _
      rw [hstack, stack, h.frames, List.map_append, List.reverse_append]
      rfl
    · show (now.follow frame (rest ++ s.frames)).cursors = s.cursors ++ _
      simp [cursors, Search.follow]
    · rw [List.head?_reverse, hlast]
  · refine ⟨frame.node, need, height, ?_, List.mem_of_getElem? hneed, ?_, ?_⟩
    · show (now.follow frame (rest ++ s.frames)).stack.getLast? = some frame.node
      rw [hstack, stack_of_frames hf, List.getLast?_concat]
    · show (now.follow frame (rest ++ s.frames)).stack[height]? = some need
      rwa [hstack, ← h.consistent.onStack_iff]
    · rw [loopFrom, hheight]
      rfl

/-- What the steps of an exploration keep. -/
theorem Underway.of_moves {next : Search}
    (hin : ∀ node, ReflTransGen s.graph.Needs root node → node < s.graph.size)
    (h : Underway s root now opened grown)
    (hmoves : now.Moves s.frames.length (.running next)) :
    ∃ opened grown, Underway s root next opened grown := by
  cases hmoves with
  | close hf hbase hend =>
    obtain ⟨rest, rfl, rfl⟩ := h.exists_opened hf hbase
    rw [h.graph] at hend
    exact ⟨_, _, h.close hend⟩
  | follow hf hbase hneed hmark =>
    obtain ⟨rest, rfl, rfl⟩ := h.exists_opened hf hbase
    rw [h.graph] at hneed
    exact ⟨_, _, h.follow hneed hmark⟩
  | enter hf hbase hneed hmark =>
    obtain ⟨rest, rfl, rfl⟩ := h.exists_opened hf hbase
    rw [h.graph] at hneed
    have hsize := hin _ (h.node_reached.tail (List.mem_of_getElem? hneed))
    exact ⟨_, _, h.enter hneed hmark hsize⟩

/-- What is needed next is needed by the root, be it through others. -/
theorem Underway.nextInRange
    (hin : ∀ node, ReflTransGen s.graph.Needs root node → node < s.graph.size)
    (h : Underway s root now opened grown) : now.NextInRange s.frames.length := by
  intro frame below hf hbase need hneed
  obtain ⟨rest, rfl, rfl⟩ := h.exists_opened hf hbase
  rw [h.graph] at hneed ⊢
  exact hin need (h.node_reached.tail (List.mem_of_getElem? hneed))

/-- An exploration finishes what its root leads to or breaks off at a loop, and a visit on the lists
of the search comes to the same. -/
theorem Consistent.visit_lists (hs : s.Consistent)
    (hclosed : ∀ a b, s.mark a = .finished → s.graph.Needs a b → s.mark b = .finished)
    (hnew : s.mark root = .unvisited)
    (hin : ∀ node, ReflTransGen s.graph.Needs root node → node < s.graph.size) :
    (∃ next, s.lists.visit root = some (next, none) ∧ s.lists.Finishes root next) ∨
      ∃ next nodes, s.lists.visit root = some (next, some nodes) ∧
        s.lists.Breaks root next nodes := by
  have hsize := hin root .refl
  have hfirst : ∃ opened grown, Underway s root (s.enter root) opened grown :=
    ⟨_, _, underway_enter hs hsize hnew⟩
  have hkeep : ∀ now next, (∃ opened grown, Underway s root now opened grown) →
      now.Moves s.frames.length (.running next) →
      ∃ opened grown, Underway s root next opened grown := by
    rintro now next ⟨opened, grown, h⟩ hmoves
    exact h.of_moves hin hmoves
  have hvisit : s.lists.visit root = some (((s.enter root).settle s.frames.length).1.lists,
      ((s.enter root).settle s.frames.length).2) := by
    rw [visit_lists_eq hsize]
    refine settle_lists (fun now ⟨opened, grown, h⟩ => ?_) hkeep hfirst
    exact ⟨h.consistent, h.nextInRange hin⟩
  rw [hvisit]
  rcases exists_last hkeep hfirst with
    ⟨⟨opened, grown, h⟩, hbase, hnone⟩ | ⟨last, next, nodes, ⟨opened, grown, h⟩, hmoves, hsettle⟩
  · rw [hnone]
    exact .inl ⟨_, rfl, h.finishes hs hclosed hbase⟩
  · rw [hsettle]
    cases hmoves with
    | loop hf hbase hneed hmark =>
      obtain ⟨rest, rfl, rfl⟩ := h.exists_opened hf hbase
      rw [h.graph] at hneed
      exact .inr ⟨_, _, rfl, h.breaks hneed hmark⟩

end Search

/-! ## Main result -/

namespace Traversal

variable {t : Traversal} {root : Nat}

/-- **A visit finishes what its root leads to, or breaks off at a cycle**: on any sound traversal in
which what a node that is done needs is done, from any unvisited root that leads to nodes of the
graph only. -/
theorem visit_finishes_or_breaks (ht : t.Sound)
    (hclosed : ∀ a b, t.state[a]? = some .done → t.graph.Needs a b → t.state[b]? = some .done)
    (hnew : t.state[root]? = some .unvisited)
    (hin : ∀ node, ReflTransGen t.graph.Needs root node → node < t.graph.size) :
    (∃ next, t.visit root = some (next, none) ∧ t.Finishes root next) ∨
      ∃ next nodes, t.visit root = some (next, some nodes) ∧ t.Breaks root next nodes := by
  obtain ⟨s, hs, rfl⟩ := ht.exists_search
  simp only [Search.state_lists_eq_done_iff] at hclosed
  exact hs.visit_lists hclosed (Search.unvisited_of_state_lists hnew).2 hin

/-- A traversal with node 0 in progress and node 3 done. -/
def midway : Traversal where
  graph := ⟨#[[1], [2, 3], [3], [], [5], [3, 0]]⟩
  state := #[.inProgress, .unvisited, .unvisited, .done, .unvisited, .unvisited]
  position := #[0, -1, -1, -1, -1, -1]
  stack := #[0]
  cursor := #[0]
  order := #[3]
  size_state := rfl
  size_position := rfl

theorem sound_midway : midway.Sound := by
  have hin : midway.graph.InRange := by decide
  have hops : (start midway.graph).AllowsAll [.visit 3, .push 0] := by
    refine .cons rfl (by cbv) ?_
    exact .cons rfl rfl trivial
  obtain ⟨t, hafter, ht, -⟩ := (sound_start midway.graph).after hin hops List.prefix_rfl
  have hmidway : (start midway.graph).after [.visit 3, .push 0] = some midway := by cbv
  rw [hmidway, Option.some.injEq] at hafter
  exact hafter ▸ ht

/-- One root leads to nodes that are done in the end, the other back to the node in progress. -/
theorem visit_finishes_or_breaks_midway :
    midway.Sound ∧
    (∀ a b, midway.state[a]? = some .done → midway.graph.Needs a b →
      midway.state[b]? = some .done) ∧
    (midway.state[1]? = some .unvisited ∧
      (∀ node, ReflTransGen midway.graph.Needs 1 node → node < midway.graph.size) ∧
      ∃ next, midway.visit 1 = some (next, none) ∧ next.order = #[3, 2, 1] ∧
        midway.Finishes 1 next) ∧
    midway.state[4]? = some .unvisited ∧
      (∀ node, ReflTransGen midway.graph.Needs 4 node → node < midway.graph.size) ∧
      ∃ next, midway.visit 4 = some (next, some [0, 4, 5]) ∧
        midway.Breaks 4 next [0, 4, 5] := by
  have hin : midway.graph.InRange := by decide
  have hclosed : ∀ a b, midway.state[a]? = some .done → midway.graph.Needs a b →
      midway.state[b]? = some .done := by
    intro a b ha hab
    rw [sound_midway.done_iff] at ha
    obtain rfl : a = 3 := by simpa [midway] using ha
    cases hab
  have hone := fun node => hin.lt_size_of_reflTransGen (b := node) (show 1 < 6 by decide)
  have hfour := fun node => hin.lt_size_of_reflTransGen (b := node) (show 4 < 6 by decide)
  have hvisit : (midway.visit 1).map (fun found => (found.1.order, found.2)) =
      some (#[3, 2, 1], none) := by cbv
  have hvisit' : (midway.visit 4).map Prod.snd = some (some [0, 4, 5]) := by cbv
  refine ⟨sound_midway, hclosed, ⟨rfl, hone, ?_⟩, rfl, hfour, ?_⟩
  · rcases visit_finishes_or_breaks sound_midway hclosed rfl hone with
      ⟨next, hnext, hfinishes⟩ | ⟨next, nodes, hnext, -⟩
    · rw [hnext] at hvisit
      simp only [Option.map_some, Option.some.injEq, Prod.mk.injEq] at hvisit
      exact ⟨next, hnext, hvisit.1, hfinishes⟩
    · simp [hnext] at hvisit
  · rcases visit_finishes_or_breaks sound_midway hclosed rfl hfour with
      ⟨next, hnext, -⟩ | ⟨next, nodes, hnext, hbreaks⟩
    · simp [hnext] at hvisit'
    · rw [hnext] at hvisit'
      simp only [Option.map_some, Option.some.injEq] at hvisit'
      exact ⟨next, hvisit' ▸ hnext, hvisit' ▸ hbreaks⟩

end Traversal

end ContainerFlow
