/-
ContainerFlow.Proofs.Schedule.Recursion — the depth first search as it
is written down when a search may call itself, and what is true of it.

`Graph.visit` takes nodes one after the other.  A finished node is passed
over.  A node on the current path closes a loop, which is the part of
the path from that node on.  Any other node is visited: first, with the
node at the end of the path, all that it needs, then the node itself is
finished.

* `Graph.visited_of_visit` — what a successful visit comes to: the order
  of the finished nodes goes on to be an order, and it grows by what is
  reached and by nothing else.
* `Graph.isLoop_of_visit` — a visit that fails has found a loop.

Both follow the recursion of `visit`.  That the scheduler computes
`Graph.recursiveOrder` is the matter of `Proofs.Schedule.Simulation`.
-/
import ContainerFlow.Proofs.Schedule.Graph

namespace ContainerFlow.Graph

open Relation (ReflTransGen)

/-! ## The recursive search -/

/-- The nodes that are not on a path. -/
def offPath (g : Graph) (path : List Nat) : List Nat := (List.range g.size).filter (· ∉ path)

theorem offPath_snoc (g : Graph) (path : List Nat) (node : Nat) :
    g.offPath (path ++ [node]) = (g.offPath path).filter (· ≠ node) := by
  simp only [offPath, List.filter_filter]
  congr 1
  funext a
  simp [and_comm]

theorem length_offPath_snoc_le (g : Graph) (path : List Nat) (node : Nat) :
    (g.offPath (path ++ [node])).length ≤ (g.offPath path).length := by
  rw [offPath_snoc]
  exact List.length_filter_le _ _

theorem length_offPath_snoc_lt {g : Graph} {path : List Nat} {node : Nat}
    (hsize : node < g.size) (hnew : node ∉ path) :
    (g.offPath (path ++ [node])).length < (g.offPath path).length := by
  rw [offPath_snoc, List.length_filter_lt_length_iff_exists]
  exact ⟨node, by simp [offPath, hsize, hnew], by simp⟩

/-- Visits `nodes` in turn.  The nodes of `path` are under way, those of `finished` are done with;
the answer is all nodes that are finished in the end, or the nodes of a loop. -/
def visit (g : Graph) (path : List Nat) :
    (nodes finished : List Nat) → Except (List Nat) (List Nat)
  | [], finished => .ok finished
  | node :: rest, finished =>
    if node ∈ finished then g.visit path rest finished
    else if node ∈ path then .error (path.dropWhile (· ≠ node))
    else
      match g.visit (path ++ [node]) (g.needsOf node) finished with
      | .ok later => g.visit path rest (later ++ [node])
      | .error loop => .error loop
termination_by nodes => ((g.offPath path).length, nodes.length)
decreasing_by
  · exact .right _ (Nat.lt_succ_self _)
  · rcases Nat.lt_or_ge node g.size with hlt | hge
    · exact .left _ _ (length_offPath_snoc_lt hlt ‹_›)
    · rw [needsOf_of_size_le hge]
      rcases Nat.lt_or_eq_of_le (length_offPath_snoc_le g path node) with hlt | heq
      · exact .left _ _ hlt
      · rw [heq]
        exact .right _ (Nat.succ_pos _)
  · exact .right _ (Nat.lt_succ_self _)

/-- The order of all nodes, or a loop: the nodes are tried from the first to the last. -/
def recursiveOrder (g : Graph) : Except (List Nat) (List Nat) :=
  g.visit [] (List.range g.size) []

/-! ## Successful visits -/

/-- What a successful visit of `nodes` comes to, from the nodes `finished` to the nodes `out`. -/
structure Visited (g : Graph) (path nodes finished out : List Nat) : Prop where
  ordered : g.Ordered out
  grown : finished <+: out
  complete : ∀ node ∈ nodes, node ∈ out
  reached : ∀ a ∈ out, a ∈ finished ∨ ∃ node ∈ nodes, ReflTransGen g.Needs node a
  /-- Nodes that are under way stay so. -/
  frame : ∀ node ∈ path, node ∈ out → node ∈ finished

/-- A visit that succeeds finishes what it reaches, each node after the nodes that it needs. -/
theorem visited_of_visit {g : Graph} {path nodes finished out : List Nat}
    (h : g.visit path nodes finished = .ok out) (hf : g.Ordered finished) :
    g.Visited path nodes finished out := by
  fun_induction visit g path nodes finished generalizing out with
  | case1 path finished =>
    cases h
    exact ⟨hf, List.prefix_rfl, by simp, fun a ha => .inl ha, fun _ _ ha => ha⟩
  | case2 path node rest finished hmem ih =>
    have hrest := ih h hf
    refine ⟨hrest.ordered, hrest.grown, ?_, ?_, hrest.frame⟩
    · exact List.forall_mem_cons.mpr ⟨hrest.grown.subset hmem, hrest.complete⟩
    · intro a ha
      refine (hrest.reached a ha).imp_right fun ⟨n, hn, hna⟩ => ?_
      exact ⟨n, List.mem_cons_of_mem _ hn, hna⟩
  | case3 => cases h
  | case4 path node rest finished hmem hpath later hvisit ihneeds ihrest =>
    have hneeds := ihneeds hvisit hf
    have hnew : node ∉ later := fun hl => hmem (hneeds.frame node (by simp) hl)
    have hrest := ihrest h (.snoc hneeds.ordered hnew hneeds.complete)
    have hnode : node ∈ out := hrest.grown.subset (by simp)
    refine ⟨hrest.ordered, ?_, List.forall_mem_cons.mpr ⟨hnode, hrest.complete⟩, ?_, ?_⟩
    · exact hneeds.grown.trans ((List.prefix_append _ _).trans hrest.grown)
    · intro a ha
      rcases hrest.reached a ha with ha | ⟨n, hn, hna⟩
      · rcases List.mem_append.mp ha with ha | ha
        · refine (hneeds.reached a ha).imp_right fun ⟨n, hn, hna⟩ => ?_
          exact ⟨node, by simp, .head hn hna⟩
        · rw [List.mem_singleton.mp ha]
          exact .inr ⟨node, by simp, .refl⟩
      · exact .inr ⟨n, List.mem_cons_of_mem _ hn, hna⟩
    · intro n hn ha
      rcases List.mem_append.mp (hrest.frame n hn ha) with ha | ha
      · exact hneeds.frame n (List.mem_append_left _ hn) ha
      · cases List.mem_singleton.mp ha
        exact absurd hn hpath
  | case5 => cases h

/-! ## Failing visits -/

/-- The part of a path from a node on begins with the node. -/
theorem exists_dropWhile_eq_cons {path : List Nat} {node : Nat} (h : node ∈ path) :
    ∃ rest, path.dropWhile (· ≠ node) = node :: rest := by
  induction path with
  | nil => cases h
  | cons a path ih =>
    by_cases ha : a = node
    · exact ⟨path, by simp [ha]⟩
    · simpa [ha] using ih (by simpa [Ne.symm ha] using h)

/-- A visit that fails has found a loop, if the path is one and leads to the nodes that are
visited. -/
theorem isLoop_of_visit {g : Graph} {path nodes finished loop : List Nat}
    (h : g.visit path nodes finished = .error loop) (hdistinct : path.Nodup)
    (hchain : ∀ node ∈ nodes, (path ++ [node]).IsChain g.Needs) :
    ∃ first rest, loop = first :: rest ∧ g.IsLoop first rest := by
  fun_induction visit g path nodes finished with
  | case1 => cases h
  | case2 path node rest finished hmem ih =>
    exact ih h hdistinct fun n hn => hchain n (List.mem_cons_of_mem _ hn)
  | case3 path node rest finished hmem hpath =>
    obtain ⟨after, hafter⟩ := exists_dropWhile_eq_cons hpath
    -- The path up to `node` leads into the loop and is cut off.
    have hsuffix : node :: after <:+ path := hafter ▸ List.dropWhile_suffix _
    cases h
    refine ⟨node, after, hafter, hdistinct.sublist hsuffix.sublist, ?_⟩
    obtain ⟨before, rfl⟩ := hsuffix
    have hround := hchain node (by simp)
    rw [List.append_assoc] at hround
    exact hround.suffix (List.suffix_append _ _)
  | case4 path node rest finished hmem hpath later hvisit ihneeds ihrest =>
    exact ihrest h hdistinct fun n hn => hchain n (List.mem_cons_of_mem _ hn)
  | case5 path node rest finished hmem hpath loop' hvisit ih =>
    cases h
    refine ih hvisit ?_ ?_
    · exact List.nodup_append.mpr ⟨hdistinct, by simp, by grind⟩
    · intro need hneed
      rw [List.append_assoc]
      exact List.isChain_append_cons_cons.mpr
        ⟨hchain node (by simp), hneed, List.isChain_singleton _⟩

/-! ## Orders of whole graphs -/

/-- The order that the recursive search finds has all nodes and nothing else. -/
theorem ordered_of_recursiveOrder {g : Graph} (hin : g.InRange) {nodes : List Nat}
    (h : g.recursiveOrder = .ok nodes) :
    g.Ordered nodes ∧ ∀ node, node ∈ nodes ↔ node < g.size := by
  have hv := visited_of_visit h .nil
  refine ⟨hv.ordered, fun node => ⟨fun hn => ?_, fun hn => ?_⟩⟩
  · obtain hn | ⟨root, hroot, hreach⟩ := hv.reached node hn
    · cases hn
    · exact hin.lt_size_of_reflTransGen (List.mem_range.mp hroot) hreach
  · exact hv.complete node (List.mem_range.mpr hn)

/-- What the recursive search finds in place of an order is a loop. -/
theorem isLoop_of_recursiveOrder {g : Graph} {loop : List Nat}
    (h : g.recursiveOrder = .error loop) :
    ∃ first rest, loop = first :: rest ∧ g.IsLoop first rest :=
  isLoop_of_visit h List.nodup_nil fun _ _ => List.isChain_singleton _

end ContainerFlow.Graph
