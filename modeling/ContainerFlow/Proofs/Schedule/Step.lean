/-
ContainerFlow.Proofs.Schedule.Step — what a step of a search comes to.

`Moves` has a case for everything that can happen in a step, with all
that is known when it happens: the frame on top, the need that comes
next, and the mark of this need.  Every step is one of these cases
(`moves_step`), and proofs about steps go through them.

What steps keep is kept until the stack is worked off, or until a loop
is met: `exists_last` is the induction on the steps of `settle`.
-/
import ContainerFlow.Schedule.Search

namespace ContainerFlow.Search

variable {s : Search} {base : Nat}

/-- What working off the stack down to `base` frames can do next. -/
inductive Moves (base : Nat) (s : Search) : Progress → Prop where
  /-- There is nothing left to do. -/
  | settled (hbase : s.frames.length ≤ base) : Moves base s .settled
  /-- All needs of the innermost open node have been followed. -/
  | close {frame : Frame} {below : List Frame} (hf : s.frames = frame :: below)
      (hbase : base ≤ below.length)
      (hend : (s.graph.needsOf frame.node)[frame.cursor]? = none) :
      Moves base s (.running (s.close frame below))
  /-- The next need is finished. -/
  | follow {frame : Frame} {below : List Frame} {need : Nat} (hf : s.frames = frame :: below)
      (hbase : base ≤ below.length)
      (hneed : (s.graph.needsOf frame.node)[frame.cursor]? = some need)
      (hmark : s.mark need = .finished) :
      Moves base s (.running (s.follow frame below))
  /-- The next need is unvisited. -/
  | enter {frame : Frame} {below : List Frame} {need : Nat} (hf : s.frames = frame :: below)
      (hbase : base ≤ below.length)
      (hneed : (s.graph.needsOf frame.node)[frame.cursor]? = some need)
      (hmark : s.mark need = .unvisited) :
      Moves base s (.running ((s.follow frame below).enter need))
  /-- The next need is open. -/
  | loop {frame : Frame} {below : List Frame} {need height : Nat} (hf : s.frames = frame :: below)
      (hbase : base ≤ below.length)
      (hneed : (s.graph.needsOf frame.node)[frame.cursor]? = some need)
      (hmark : s.mark need = .onStack height) :
      Moves base s (.looped (s.follow frame below) ((s.follow frame below).loopFrom need))

theorem moves_step (base : Nat) (s : Search) : s.Moves base (s.step base) := by
  unfold step
  split
  · next hf => exact .settled (by simp [hf])
  next frame below hf =>
  split
  · next hlt =>
    refine .settled ?_
    rw [hf]
    exact hlt
  next hlt =>
  have hbase := Nat.le_of_not_lt hlt
  split
  · next hend => exact .close hf hbase hend
  next need hneed =>
  split
  · next hmark => exact .follow hf hbase hneed hmark
  · next hmark => exact .loop hf hbase hneed hmark
  · next hmark => exact .enter hf hbase hneed hmark

theorem moves_of_step {p : Progress} (h : s.step base = p) : s.Moves base p := h ▸ moves_step base s

/-- What every running step keeps is true of the search from which the last step is taken. -/
theorem exists_last {P : Search → Prop}
    (hkeep : ∀ s next, P s → s.Moves base (.running next) → P next) (hs : P s) :
    (P (s.settle base).1 ∧ (s.settle base).1.frames.length ≤ base ∧ (s.settle base).2 = none) ∨
    ∃ last next nodes, P last ∧ last.Moves base (.looped next nodes) ∧
      s.settle base = (next, some nodes) := by
  fun_induction settle base s with
  | case1 s hstep =>
    cases moves_of_step hstep with
    | settled hbase => exact .inl ⟨hs, hbase, rfl⟩
  | case2 s next nodes hstep => exact .inr ⟨s, next, nodes, hs, moves_of_step hstep, rfl⟩
  | case3 s next hstep ih => exact ih (hkeep s next hs (moves_of_step hstep))

end ContainerFlow.Search
