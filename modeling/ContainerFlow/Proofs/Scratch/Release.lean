/-
ContainerFlow.Proofs.Scratch.Release — what is left when the scratch
directories are released.

`Scratch.rest` is the tree without the scratch directories.  Before they
are made it is the whole tree (`rest_eq_self`), and making them, copying
to the workspace, working in either and releasing them does not change it
(`rest_worked`, `rest_release`).  So nothing else is ever touched.

Of the scratch directories themselves nothing is left but what the system
holds, with the directories that it is in (`mem_release_false`).  Nobody
is told.  Thus the tree is as it was before exactly if the system holds
nothing there in the end (`release_false_eq_iff`).

The main statement is `cleansUp`.
-/
import Mathlib
import ContainerFlow.Proofs.Scratch

namespace ContainerFlow.Scratch

open FileTree

variable {s : Scratch} {t u : FileTree} {here : Location} {source target : Path} {sys : System}

/-! ## The rest of the tree -/

theorem outside_iff {q : Location} : s.Outside q ↔ ¬ s.workspace <+: q ∧ ¬ s.home <+: q :=
  ⟨fun h => ⟨h.not_workspace, h.not_home⟩, fun h => ⟨h.1, h.2⟩⟩

/-- What is on the way to something outside is outside. -/
theorem Outside.of_prefix {p q : Location} (h : s.Outside q) (hp : p <+: q) : s.Outside p :=
  ⟨fun hw => h.not_workspace (hw.trans hp), fun hh => h.not_home (hh.trans hp)⟩

instance (s : Scratch) : DecidablePred s.Outside := fun _ => decidable_of_iff _ outside_iff.symm

/-- The tree without the scratch directories and what is in them. -/
def rest (s : Scratch) (t : FileTree) : FileTree := ⟨t.entries.filter fun e => s.Outside e.1⟩

theorem mem_rest {e : Location × Entry} :
    e ∈ (s.rest t).entries ↔ e ∈ t.entries ∧ s.Outside e.1 := by
  simp [rest]

/-- Before the scratch directories are made, the rest is all there is. -/
theorem rest_eq_self (ht : t.IsTree) (hs : s.IsFreshIn t) : s.rest t = t := by
  have hall : t.entries.filter (fun e => s.Outside e.1) = t.entries := by
    refine List.filter_eq_self.mpr fun e he => ?_
    exact decide_eq_true (outside_of_isSome ht hs (isSome_entry?_of_mem he))
  rw [rest, hall]

/-- What is added to the scratch directories does not count. -/
theorem rest_extend {more : List (Location × Entry)} (h : ∀ e ∈ more, ¬ s.Outside e.1) :
    s.rest (t.extend more) = s.rest t := by
  have hnone : more.filter (fun e => s.Outside e.1) = [] := by
    simpa [List.filter_eq_nil_iff] using h
  rw [rest, entries_extend, List.filter_append, hnone, List.append_nil, rest]

theorem rest_make (s : Scratch) (t : FileTree) : s.rest (s.make t) = s.rest t := by
  refine rest_extend fun e he houtside => ?_
  rcases List.mem_pair.mp he with rfl | rfl
  · exact houtside.not_workspace List.prefix_rfl
  · exact houtside.not_home List.prefix_rfl

theorem Fills.rest_eq (h : s.Fills t u) : s.rest u = s.rest t := by
  obtain ⟨more, hmore, rfl⟩ := h
  refine rest_extend fun e he houtside => ?_
  obtain ⟨p, -, heq⟩ := hmore e he
  exact houtside.not_workspace ⟨p, heq.symm⟩

/-! ## Releasing -/

/-- The system holds nothing that is in the scratch directories. -/
def Frees (sys : System) (s : Scratch) (t : FileTree) : Prop :=
  ∀ e ∈ t.entries, ¬ s.Outside e.1 → sys.holds e.1 = false

@[simp] theorem release_true (s : Scratch) (t : FileTree) (sys : System) :
    s.release true t sys = t := rfl

/-- To release the directories is to leave the rest of the tree, and what is on the way to something
that the system holds. -/
theorem release_false_eq (s : Scratch) (t : FileTree) (sys : System) :
    s.release false t sys =
      ⟨t.entries.filter fun e => s.Outside e.1 || t.isHeld sys.holds e.1⟩ := by
  have hentries : (s.release false t sys).entries =
      t.entries.filter fun e => s.Outside e.1 || t.isHeld sys.holds e.1 := by
    -- What is held stays, so that the home is released as if it were the first.
    have hhome : (s.release false t sys).entries =
        (t.remove s.workspace sys.holds).entries.filter fun e =>
          !isWithin s.home e.1 || t.isHeld sys.holds e.1 := by
      refine List.filter_congr fun e _ => ?_
      rw [isHeld_remove]
    rw [hhome, FileTree.remove, List.filter_filter]
    refine List.filter_congr fun e _ => ?_
    rw [← Bool.or_and_distrib_right, Bool.and_comm]
    congr 1
    rw [Bool.eq_iff_iff]
    simp [outside_iff, ← isWithin_iff]
  exact congrArg FileTree.mk hentries

/-- Nothing but what is in the scratch directories is taken away. -/
@[simp] theorem rest_release (s : Scratch) (keep : Bool) (t : FileTree) (sys : System) :
    s.rest (s.release keep t sys) = s.rest t := by
  cases keep with
  | true => rw [release_true]
  | false =>
    rw [release_false_eq, rest, rest, List.filter_filter]
    congr 1
    refine List.filter_congr fun e _ => ?_
    cases decide (s.Outside e.1) <;> simp

theorem mem_release_false {e : Location × Entry} :
    e ∈ (s.release false t sys).entries ↔
      e ∈ t.entries ∧ (s.Outside e.1 ∨ t.isHeld sys.holds e.1) := by
  rw [release_false_eq, List.mem_filter, Bool.or_eq_true, decide_eq_true_eq]

/-- What is left of the scratch directories is on the way to something that is held and left. -/
theorem isHeld_of_mem_release {e : Location × Entry} (he : e ∈ (s.release false t sys).entries)
    (hinside : ¬ s.Outside e.1) : (s.release false t sys).isHeld sys.holds e.1 := by
  have hheld := (mem_release_false.mp he).2.resolve_left hinside
  rw [release, if_neg Bool.false_ne_true, isHeld_remove, isHeld_remove]
  exact hheld

/-- Nothing is left of the scratch directories if nothing in them is held, and in no other case. -/
theorem release_false_eq_iff : s.release false t sys = s.rest t ↔ Frees sys s t := by
  constructor
  · intro heq e he hinside
    by_contra hheld
    have hstays : e ∈ (s.release false t sys).entries :=
      mem_release_false.mpr ⟨he, .inr (isHeld_of_mem he (by simpa using hheld))⟩
    exact hinside (mem_rest.mp (heq ▸ hstays)).2
  · intro hfrees
    rw [release_false_eq, rest]
    congr 1
    refine List.filter_congr fun e _ => ?_
    rw [Bool.eq_iff_iff, Bool.or_eq_true, or_iff_left_of_imp]
    intro hheld
    obtain ⟨held, hmem, hprefix, hholds⟩ := isHeld_iff.mp hheld
    refine decide_eq_true (Outside.of_prefix ?_ hprefix)
    by_contra hinside
    rw [hfrees held hmem hinside] at hholds
    cases hholds

/-! ## Preparing -/

/-- The directories are made, and whatever else comes of preparing them is in the workspace. -/
theorem fills_prepare (s : Scratch) (t : FileTree) (here : Location) (source : Path)
    (sys : System) (hfits : Path.fits target.render) :
    s.Fills (s.make t) (s.prepare t here source target sys).1 := by
  rw [prepare, if_pos hfits]
  cases hplace : (s.make t).directoryAt here source with
  | ok place =>
    simp only [hplace]
    split
    · exact .refl s _
    · exact fills_copy s _ _ sys
  | error problem =>
    simp only [hplace]
    exact .refl s _

theorem rest_prepare (s : Scratch) (t : FileTree) (here : Location) (source target : Path)
    (sys : System) : s.rest (s.prepare t here source target sys).1 = s.rest t := by
  by_cases hfits : Path.fits target.render
  · rw [(fills_prepare s t here source sys hfits).rest_eq, rest_make]
  · rw [prepare, if_neg hfits]

/-! ## Working in scratch directories -/

section
variable {α : Type}

/-- Prepares scratch directories and, when they are without a defect, does some work, which comes to
whatever it comes to and may change the tree. -/
def worked (s : Scratch) (t : FileTree) (here : Location) (source target : Path) (sys : System)
    (work : FileTree → α × FileTree) : Except Defect α × FileTree :=
  match s.prepare t here source target sys with
  | (u, some d) => (.error d, u)
  | (u, none) => (.ok (work u).1, (work u).2)

/-- Works in scratch directories, and releases them whatever comes of it. -/
def during (s : Scratch) (keep : Bool) (t : FileTree) (here : Location) (source target : Path)
    (sys : System) (work : FileTree → α × FileTree) : Except Defect α × FileTree :=
  ((s.worked t here source target sys work).1,
    s.release keep (s.worked t here source target sys work).2 sys)

/-- The work changes nothing but what is in the scratch directories. -/
def StaysIn (s : Scratch) (work : FileTree → α × FileTree) : Prop :=
  ∀ u, s.rest (work u).2 = s.rest u

theorem rest_worked {work : FileTree → α × FileTree} (hwork : s.StaysIn work) (t : FileTree)
    (here : Location) (source target : Path) (sys : System) :
    s.rest (s.worked t here source target sys work).2 = s.rest t := by
  have hprepared := rest_prepare s t here source target sys
  unfold worked
  split
  · next u _ hdefect =>
    rw [hdefect] at hprepared
    exact hprepared
  · next u hnone =>
    rw [hnone] at hprepared
    exact (hwork u).trans hprepared

end

/-! ## Main result -/

/-- Whatever is done in scratch directories, and however it ends: nothing else is touched, and
nothing else stays, unless the directories are kept or the system holds something in them. -/
structure CleansUp (s : Scratch) (t : FileTree) (sys : System) : Prop where
  untouched : ∀ (α : Type) (work : FileTree → α × FileTree), s.StaysIn work →
    ∀ keep here source target, s.rest (s.during keep t here source target sys work).2 = t
  released : ∀ (α : Type) (work : FileTree → α × FileTree), s.StaysIn work →
    ∀ here source target, (s.during false t here source target sys work).2 = t ↔
      Frees sys s (s.worked t here source target sys work).2
  /-- All that stays is on the way to something that is held. -/
  held : ∀ (α : Type) (work : FileTree → α × FileTree) here source target,
    ∀ e ∈ (s.during false t here source target sys work).2.entries, ¬ s.Outside e.1 →
      (s.during false t here source target sys work).2.isHeld sys.holds e.1
  /-- The directories are there to work in, unless their path is too long. -/
  made : ∀ here source target, Path.fits target.render →
    entry? (s.prepare t here source target sys).1 s.workspace = some .directory ∧
    entry? (s.prepare t here source target sys).1 s.home = some .directory
  /-- The same goes for a copy that has stopped at any point, with whatever is in the workspace. -/
  unfinished : ∀ u, s.Fills (s.make t) u →
    (∀ keep, s.rest (s.release keep u sys) = t) ∧ (s.release false u sys = t ↔ Frees sys s u)

/-- Fresh scratch directories clean up after themselves, as far as the system lets them. -/
theorem cleansUp (ht : t.IsTree) (hs : s.IsFreshIn t) (sys : System) : s.CleansUp t sys := by
  have hrest := rest_eq_self ht hs
  constructor
  case untouched =>
    intro α work hwork keep here source target
    rw [during, rest_release, rest_worked hwork, hrest]
  case released =>
    intro α work hwork here source target
    have hworked := (rest_worked hwork t here source target sys).trans hrest
    rw [← release_false_eq_iff, hworked, during]
  case held => exact fun α work here source target e he => isHeld_of_mem_release he
  case made =>
    intro here source target hfits
    have hfills := fills_prepare s t here source sys hfits
    constructor
    · rw [hfills.entry?_eq (by simp), entry?_make_workspace ht hs]
    · rw [hfills.entry?_of_not_prefix (not_workspace_prefix_home ht hs), entry?_make_home ht hs]
  case unfinished =>
    intro u hfills
    have hrest : s.rest u = t := by rw [hfills.rest_eq, rest_make, hrest]
    rw [← release_false_eq_iff, hrest]
    exact ⟨fun keep => by rw [rest_release, hrest], Iff.rfl⟩

end ContainerFlow.Scratch
