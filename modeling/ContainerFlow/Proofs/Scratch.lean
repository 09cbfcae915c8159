/-
ContainerFlow.Proofs.Scratch — what is in the workspace.

The scratch directories are made where nothing is yet
(`Scratch.IsFreshIn`), anywhere in the tree: next to the source, in it, or
above it.  Of the source everything is copied but what `Scratch.Keeps`
rules out: what is called like the directory of the version control, or
in such a directory, and the scratch directories themselves.  The rule
that decides it name by name on the way down comes to the same
(`reaches_iff`).

A path is not copied either if it is too long to be written, or if the
system refuses it, and the copy goes down no deeper than the stack lets it.
Such a copy has a defect, and there is a defect in no other case
(`defect_prepare_eq_none_iff`); without one the workspace is an exact copy
(`isCopyIn_prepare`).
-/
import Mathlib
import ContainerFlow.Scratch
import ContainerFlow.Proofs.FileTree

namespace ContainerFlow.Scratch

open FileTree

variable {s : Scratch} {t u : FileTree} {place here top : Location} {source target : Path}
  {c : Copying} {sys : System} {name : String} {e : Entry} {p q : Location}

/-! ## Fresh scratch directories -/

/-- Two places for the scratch directories, where there is nothing yet. -/
structure IsFreshIn (s : Scratch) (t : FileTree) : Prop where
  distinct : s.workspace ≠ s.home
  workspace : t.IsVacant s.workspace
  home : t.IsVacant s.home

theorem isFreshIn_fresh (h : t.entry? top = some .directory) : (fresh t top).IsFreshIn t := by
  constructor
  case distinct =>
    intro heq
    have hname : newName t workspaceLabel = newName t homeLabel := by
      simpa [fresh] using heq
    have hlength := congrArg String.length hname
    simp only [newName, String.length_append] at hlength
    have hlabels : workspaceLabel.length ≠ homeLabel.length := by decide
    omega
  case workspace => exact ⟨entry?_append_newName t top _, by rwa [fresh, List.dropLast_concat]⟩
  case home => exact ⟨entry?_append_newName t top _, by rwa [fresh, List.dropLast_concat]⟩

theorem make_eq_extend (s : Scratch) (t : FileTree) :
    s.make t = (t.extend [(s.workspace, .directory)]).extend [(s.home, .directory)] := by
  rw [extend_extend]
  rfl

/-- Elsewhere there is what there was. -/
theorem entry?_make_of_ne (hw : q ≠ s.workspace) (hh : q ≠ s.home) :
    entry? (s.make t) q = t.entry? q :=
  entry?_extend_of_ne (by simpa using ⟨hw.symm, hh.symm⟩)

section
variable (ht : t.IsTree) (hs : s.IsFreshIn t)
include ht hs

theorem not_workspace_prefix_home : ¬ s.workspace <+: s.home :=
  ht.not_prefix_of_isVacant hs.workspace.free hs.home hs.distinct

theorem not_home_prefix_workspace : ¬ s.home <+: s.workspace :=
  ht.not_prefix_of_isVacant hs.home.free hs.workspace hs.distinct.symm

theorem isTree_make : (s.make t).IsTree := by
  rw [make_eq_extend]
  refine (ht.extend_of_isVacant hs.workspace _).extend_of_isVacant ⟨?_, ?_⟩ _
  · rw [entry?_extend_of_ne (by simpa using hs.distinct), hs.home.free]
  · exact entry?_extend_of_some hs.home.inDirectory _

theorem entry?_make_workspace : entry? (s.make t) s.workspace = some .directory := by
  rw [entry?_eq_some_iff (isTree_make ht hs).distinct (ne_nil_of_free hs.workspace.free)]
  simp [make]

theorem entry?_make_home : entry? (s.make t) s.home = some .directory := by
  rw [entry?_eq_some_iff (isTree_make ht hs).distinct (ne_nil_of_free hs.home.free)]
  simp [make]

/-- The workspace is empty when it is made. -/
theorem entry?_make_below_workspace (hp : p ≠ []) :
    entry? (s.make t) (s.workspace ++ p) = none := by
  have hh : s.workspace ++ p ≠ s.home := fun heq => not_workspace_prefix_home ht hs ⟨p, heq⟩
  rw [entry?_make_of_ne (by simpa using hp) hh]
  exact ht.entry?_append_of_free hs.workspace.free p

/-- The home is empty when it is made. -/
theorem entry?_make_below_home (hp : p ≠ []) : entry? (s.make t) (s.home ++ p) = none := by
  have hw : s.home ++ p ≠ s.workspace := fun heq => not_home_prefix_workspace ht hs ⟨p, heq⟩
  rw [entry?_make_of_ne hw (by simpa using hp)]
  exact ht.entry?_append_of_free hs.home.free p

end

/-! ## What is kept -/

/-- A location that is neither a scratch directory nor below one. -/
structure Outside (s : Scratch) (q : Location) : Prop where
  not_workspace : ¬ s.workspace <+: q
  not_home : ¬ s.home <+: q

/-- All that is there before the scratch directories are is outside. -/
theorem outside_of_isSome (ht : t.IsTree) (hs : s.IsFreshIn t) (he : (t.entry? q).isSome) :
    s.Outside q :=
  ⟨ht.not_prefix_of_free hs.workspace.free he, ht.not_prefix_of_free hs.home.free he⟩

theorem Outside.entry?_make (h : s.Outside q) (t : FileTree) :
    entry? (s.make t) q = t.entry? q := by
  refine entry?_make_of_ne ?_ ?_
  · exact fun heq => h.not_workspace (heq ▸ List.prefix_rfl)
  · exact fun heq => h.not_home (heq ▸ List.prefix_rfl)

/-- What a copy of `place` keeps: all but what is ignored and the scratch directories, and what is
below either. -/
structure Keeps (s : Scratch) (place p : Location) : Prop where
  not_ignored : ignoredName ∉ p
  outside : s.Outside (place ++ p)

/-- What leads to something kept is kept. -/
theorem Keeps.of_prefix (h : s.Keeps place p) (hq : q <+: p) : s.Keeps place q := by
  have hbelow : place ++ q <+: place ++ p := (List.prefix_append_right_inj place).mpr hq
  exact ⟨fun hmem => h.not_ignored (hq.subset hmem),
    fun hw => h.outside.not_workspace (hw.trans hbelow),
    fun hh => h.outside.not_home (hh.trans hbelow)⟩

theorem skips_iff :
    s.skips here name ↔
      name = ignoredName ∨ here ++ [name] = s.workspace ∨ here ++ [name] = s.home := by
  simp [skips, or_assoc]

/-- What is not skipped leads to no scratch directory. -/
theorem Outside.concat (h : s.Outside here) (hskips : ¬ s.skips here name) :
    s.Outside (here ++ [name]) := by
  rw [skips_iff, not_or, not_or] at hskips
  constructor <;> rw [List.prefix_concat_iff, not_or]
  · exact ⟨fun heq => hskips.2.1 heq.symm, h.not_workspace⟩
  · exact ⟨fun heq => hskips.2.2 heq.symm, h.not_home⟩

theorem Keeps.not_skips {p : Location} (h : s.Keeps here (name :: p)) : ¬ s.skips here name := by
  have houtside := h.outside
  rw [List.append_cons] at houtside
  rw [skips_iff]
  rintro (rfl | heq | heq)
  · exact h.not_ignored List.mem_cons_self
  · exact houtside.not_workspace (heq ▸ List.prefix_append _ _)
  · exact houtside.not_home (heq ▸ List.prefix_append _ _)

theorem reaches_cons :
    s.reaches here (name :: p) ↔ ¬ s.skips here name ∧ s.reaches (here ++ [name]) p := by
  rw [reaches, Bool.and_eq_true, Bool.not_eq_true', ← Bool.not_eq_true]

/-- Name by name, a copy comes to what it keeps. -/
theorem reaches_iff (h : s.Outside place) : s.reaches place p ↔ s.Keeps place p := by
  induction p generalizing place with
  | nil =>
    rw [← List.append_nil place] at h
    exact ⟨fun _ => ⟨List.not_mem_nil, h⟩, fun _ => rfl⟩
  | cons name rest ih =>
    rw [reaches_cons]
    constructor
    · rintro ⟨hskips, hrest⟩
      obtain ⟨hignored, houtside⟩ := (ih (h.concat hskips)).mp hrest
      rw [← List.append_cons] at houtside
      refine ⟨fun hmem => ?_, houtside⟩
      rcases List.mem_cons.mp hmem with heq | hmem
      · exact hskips (skips_iff.mpr (.inl heq.symm))
      · exact hignored hmem
    · intro hkeeps
      refine ⟨hkeeps.not_skips, (ih (h.concat hkeeps.not_skips)).mpr ⟨fun hmem => ?_, ?_⟩⟩
      · exact hkeeps.not_ignored (List.mem_cons_of_mem _ hmem)
      · rw [← List.append_cons]
        exact hkeeps.outside

/-! ## The workspace is filled -/

/-- The tree `u` is `t` with more in the workspace. -/
def Fills (s : Scratch) (t u : FileTree) : Prop :=
  ∃ more, (∀ e ∈ more, ∃ p ≠ [], e.1 = s.workspace ++ p) ∧ u = t.extend more

theorem Fills.refl (s : Scratch) (t : FileTree) : s.Fills t t := ⟨[], nofun, (extend_nil t).symm⟩

/-- Only below the workspace is there anything new. -/
theorem Fills.entry?_eq (h : s.Fills t u) (hq : ∀ p ≠ [], q ≠ s.workspace ++ p) :
    u.entry? q = t.entry? q := by
  obtain ⟨more, hmore, rfl⟩ := h
  refine entry?_extend_of_ne fun entry hentry => ?_
  obtain ⟨p, hp, heq⟩ := hmore entry hentry
  exact heq ▸ (hq p hp).symm

theorem Fills.entry?_of_not_prefix (h : s.Fills t u) (hq : ¬ s.workspace <+: q) :
    u.entry? q = t.entry? q :=
  h.entry?_eq fun p _ heq => hq ⟨p, heq.symm⟩

/-! ## What is copied -/

theorem mem_selection :
    (p, e) ∈ s.selection t place ↔ p ≠ [] ∧ (place ++ p, e) ∈ t.entries ∧ s.reaches place p := by
  rw [selection, List.mem_filter, mem_below, and_assoc]

theorem mem_copied :
    (p, e) ∈ s.copied t c sys ↔ (p, e) ∈ s.selection t c.place ∧ c.canCopy sys p :=
  List.mem_filter

theorem copy_eq_extend (s : Scratch) (t : FileTree) (c : Copying) (sys : System) :
    s.copy t c sys =
      t.extend ((s.copied t c sys).map fun e => (s.workspace ++ e.1, e.2)) := rfl

theorem fills_copy (s : Scratch) (t : FileTree) (c : Copying) (sys : System) :
    s.Fills t (s.copy t c sys) := by
  refine ⟨_, fun entry hentry => ?_, copy_eq_extend s t c sys⟩
  obtain ⟨⟨p, e⟩, hmem, rfl⟩ := List.mem_map.mp hentry
  exact ⟨p, (mem_selection.mp (mem_copied.mp hmem).1).1, rfl⟩

theorem nodup_copied (ht : t.IsTree) (s : Scratch) (c : Copying) (sys : System) :
    ((s.copied t c sys).map fun e => s.workspace ++ e.1).Nodup := by
  have hsublist : (s.copied t c sys).Sublist (t.below c.place) :=
    List.filter_sublist.trans List.filter_sublist
  have hdistinct := (ht.nodup_below c.place).sublist (hsublist.map Prod.fst)
  have hmoved := hdistinct.map (List.append_right_injective s.workspace)
  rwa [List.map_map] at hmoved

/-- Below an empty workspace there is what is copied. -/
theorem entry?_copy_below (ht : t.IsTree) (hempty : t.entry? (s.workspace ++ p) = none)
    (hp : p ≠ []) :
    entry? (s.copy t c sys) (s.workspace ++ p) = some e ↔ (p, e) ∈ s.copied t c sys := by
  have hdistinct : (((s.copied t c sys).map fun e =>
      (s.workspace ++ e.1, e.2)).map Prod.fst).Nodup := by
    rw [List.map_map]
    exact nodup_copied ht s c sys
  rw [copy_eq_extend, entry?_extend_of_none hempty, entry?_eq_some_iff hdistinct (by simp [hp])]
  simp

theorem isTooDeep_iff :
    isTooDeep sys (p, e) ↔
      e = .directory ∧ ∃ depth, sys.depth? = some depth ∧ depth < p.length := by
  unfold isTooDeep
  cases sys.depth? <;> simp

/-- The system lets through what it refuses nothing on the way to. -/
theorem admits_iff :
    sys.admits here p ↔ ∀ q, q ≠ [] → q <+: p → sys.copyError? (here ++ q) = none := by
  induction p generalizing here with
  | nil =>
    exact iff_of_true rfl fun q hq hprefix => absurd (List.prefix_nil.mp hprefix) hq
  | cons name rest ih =>
    rw [System.admits, Bool.and_eq_true, Option.isNone_iff_eq_none, ih]
    constructor
    · rintro ⟨hname, hrest⟩ q hq hprefix
      cases q with
      | nil => exact absurd rfl hq
      | cons first q =>
        obtain ⟨rfl, hbelow⟩ := List.cons_prefix_cons.mp hprefix
        by_cases hnil : q = []
        · rwa [hnil]
        · have hpast := hrest q hnil hbelow
          rwa [← List.append_cons] at hpast
    · intro hall
      refine ⟨hall [name] (List.cons_ne_nil _ _) (List.prefix_append [name] rest), ?_⟩
      intro q _ hbelow
      rw [← List.append_cons]
      exact hall (name :: q) (List.cons_ne_nil _ _) (List.cons_prefix_cons.mpr ⟨rfl, hbelow⟩)

theorem canCopy_iff : c.canCopy sys p ↔ c.isShort p ∧ sys.admits c.place p := by
  rw [Copying.canCopy, Bool.and_eq_true]

/-! ## The copy of a source in the tree -/

/-- What the entries have to be like to be copied: their paths short enough in both places, none of
them refused by the system, and the directories not nested deeper than the copy goes. -/
structure WithinLimits (s : Scratch) (t : FileTree) (c : Copying) (sys : System) : Prop where
  short : ∀ p, s.Keeps c.place p → (t.entry? (c.place ++ p)).isSome → c.isShort p
  admitted : ∀ p, s.Keeps c.place p → (t.entry? (c.place ++ p)).isSome →
    sys.copyError? (c.place ++ p) = none
  shallow : ∀ p depth, s.Keeps c.place p → t.entry? (c.place ++ p) = some .directory →
    sys.depth? = some depth → p.length ≤ depth

/-- Within the limits everything can be copied: the system refuses nothing on the way to it. -/
theorem WithinLimits.canCopy (hlimits : s.WithinLimits t c sys) (ht : t.IsTree)
    (hkeeps : s.Keeps c.place p) (he : (t.entry? (c.place ++ p)).isSome) : c.canCopy sys p := by
  refine canCopy_iff.mpr ⟨hlimits.short p hkeeps he, admits_iff.mpr fun q _ hprefix => ?_⟩
  exact hlimits.admitted q (hkeeps.of_prefix hprefix) (ht.isSome_of_prefix hprefix he)

/-- What comes of a tree when there is an exact copy of `place` in the workspace: an empty home
besides, and nothing else. -/
structure IsCopyIn (s : Scratch) (t : FileTree) (place : Location) (t' : FileTree) : Prop where
  workspace : ∀ p e, t'.entry? (s.workspace ++ p) = some e ↔
    s.Keeps place p ∧ t.entry? (place ++ p) = some e
  home : t'.entry? s.home = some .directory
  below_home : ∀ p ≠ [], t'.entry? (s.home ++ p) = none
  elsewhere : ∀ q, s.Outside q → t'.entry? q = t.entry? q

section
variable (ht : t.IsTree) (hs : s.IsFreshIn t) (hplace : t.entry? place = some .directory)
include ht hs hplace

theorem outside_place : s.Outside place :=
  outside_of_isSome ht hs (Option.isSome_of_eq_some hplace)

theorem keeps_nil : s.Keeps place [] :=
  (reaches_iff (outside_place ht hs hplace)).mp rfl

theorem mem_selection_make :
    (p, e) ∈ s.selection (s.make t) place ↔
      p ≠ [] ∧ s.Keeps place p ∧ t.entry? (place ++ p) = some e := by
  rw [mem_selection, reaches_iff (outside_place ht hs hplace)]
  refine and_congr_right fun hp => ?_
  rw [← entry?_eq_some_iff (isTree_make ht hs).distinct (by simp [hp]), and_comm]
  exact and_congr_right fun hkeeps => by rw [hkeeps.outside.entry?_make]

theorem fits_of_withinLimits (hlimits : s.WithinLimits t ⟨place, source, target⟩ sys) :
    Path.fits target.render := by
  have hself := hlimits.short [] (keeps_nil ht hs hplace)
    (Option.isSome_of_eq_some (by rwa [List.append_nil]))
  rw [Copying.isShort, Bool.and_eq_true, Path.renderBelow_nil target] at hself
  exact hself.2

/-- Nothing is missed if all that is kept can be copied, and in no other case. -/
theorem missed_make_eq_nil_iff :
    s.missed (s.make t) ⟨place, source, target⟩ sys = [] ↔
      ∀ p ≠ [], s.Keeps place p → (t.entry? (place ++ p)).isSome →
        Copying.canCopy ⟨place, source, target⟩ sys p := by
  rw [missed, List.filter_eq_nil_iff]
  constructor
  · intro hmissed p hp hkeeps hsome
    obtain ⟨e, he⟩ := Option.isSome_iff_exists.mp hsome
    simpa using hmissed _ ((mem_selection_make ht hs hplace).mpr ⟨hp, hkeeps, he⟩)
  · rintro hcan ⟨p, e⟩ hmem
    obtain ⟨hp, hkeeps, he⟩ := (mem_selection_make ht hs hplace).mp hmem
    simpa using hcan p hp hkeeps (Option.isSome_of_eq_some he)

/-- There is nothing wrong with a copy if the limits are kept, and in no other case. -/
theorem copyDefect?_make_eq_none_iff (hself : Copying.isShort ⟨place, source, target⟩ [])
    (hroot : sys.copyError? place = none) :
    copyDefect? ⟨place, source, target⟩ sys (s.copied (s.make t) ⟨place, source, target⟩ sys)
        (s.missed (s.make t) ⟨place, source, target⟩ sys) = none ↔
      s.WithinLimits t ⟨place, source, target⟩ sys := by
  rw [copyDefect?_eq_none_iff, missed_make_eq_nil_iff ht hs hplace]
  constructor
  · rintro ⟨hcan, hdeep⟩
    constructor
    case short =>
      intro p hkeeps hsome
      by_cases hp : p = []
      · rwa [hp]
      · exact (canCopy_iff.mp (hcan p hp hkeeps hsome)).1
    case admitted =>
      intro p hkeeps hsome
      by_cases hp : p = []
      · rwa [hp, List.append_nil]
      · exact admits_iff.mp (canCopy_iff.mp (hcan p hp hkeeps hsome)).2 p hp List.prefix_rfl
    case shallow =>
      intro p depth hkeeps he hdepth
      by_cases hp : p = []
      · rw [hp]
        exact Nat.zero_le _
      · have hselected := (mem_selection_make ht hs hplace).mpr ⟨hp, hkeeps, he⟩
        have hcopied := hcan p hp hkeeps (Option.isSome_of_eq_some he)
        have hgoes := hdeep _ (mem_copied.mpr ⟨hselected, hcopied⟩)
        rw [← Bool.not_eq_true, isTooDeep_iff] at hgoes
        exact Nat.not_lt.mp fun hlt => hgoes ⟨rfl, depth, hdepth, hlt⟩
  · intro hlimits
    refine ⟨fun p _ hkeeps hsome => hlimits.canCopy ht hkeeps hsome, ?_⟩
    rintro ⟨p, e⟩ hmem
    obtain ⟨-, hkeeps, he⟩ := (mem_selection_make ht hs hplace).mp (mem_copied.mp hmem).1
    rw [← Bool.not_eq_true, isTooDeep_iff]
    rintro ⟨rfl, depth, hdepth, hlt⟩
    exact absurd hlt (Nat.not_lt.mpr (hlimits.shallow p depth hkeeps he hdepth))

/-- What is not in the workspace is taken care of when the directories are made. -/
theorem isCopyIn_of_fills (hfills : s.Fills (s.make t) u)
    (hbelow : ∀ p ≠ [], ∀ e, u.entry? (s.workspace ++ p) = some e ↔
      s.Keeps place p ∧ t.entry? (place ++ p) = some e) : s.IsCopyIn t place u := by
  constructor
  case workspace =>
    intro p e
    by_cases hp : p = []
    · rw [hp, List.append_nil, List.append_nil, hfills.entry?_eq (by simp),
        entry?_make_workspace ht hs, hplace]
      exact (and_iff_right (keeps_nil ht hs hplace)).symm
    · exact hbelow p hp e
  case home =>
    rw [hfills.entry?_of_not_prefix (not_workspace_prefix_home ht hs), entry?_make_home ht hs]
  case below_home =>
    intro p hp
    rw [hfills.entry?_of_not_prefix, entry?_make_below_home ht hs hp]
    intro hprefix
    rcases List.prefix_or_prefix_of_prefix hprefix (List.prefix_append s.home p) with h | h
    · exact not_workspace_prefix_home ht hs h
    · exact not_home_prefix_workspace ht hs h
  case elsewhere =>
    intro q houtside
    rw [hfills.entry?_of_not_prefix houtside.not_workspace, houtside.entry?_make]

/-- Within the limits, the workspace is an exact copy. -/
theorem isCopyIn_copy (hlimits : s.WithinLimits t ⟨place, source, target⟩ sys) :
    s.IsCopyIn t place (s.copy (s.make t) ⟨place, source, target⟩ sys) := by
  refine isCopyIn_of_fills ht hs hplace (fills_copy s _ _ sys) fun p hp e => ?_
  rw [entry?_copy_below (isTree_make ht hs) (entry?_make_below_workspace ht hs hp) hp,
    mem_copied, mem_selection_make ht hs hplace, and_iff_right hp]
  exact and_iff_left_of_imp fun ⟨hkeeps, he⟩ =>
    hlimits.canCopy ht hkeeps (Option.isSome_of_eq_some he)

end

/-- An exact copy leaves nothing open: there is one way only that the tree looks after it. -/
theorem IsCopyIn.entry?_eq {u' : FileTree} (h : s.IsCopyIn t place u) (h' : s.IsCopyIn t place u')
    (q : Location) : u.entry? q = u'.entry? q := by
  by_cases hw : s.workspace <+: q
  · obtain ⟨p, rfl⟩ := hw
    exact Option.ext fun e => (h.workspace p e).trans (h'.workspace p e).symm
  by_cases hh : s.home <+: q
  · obtain ⟨p, rfl⟩ := hh
    by_cases hp : p = []
    · rw [hp, List.append_nil, h.home, h'.home]
    · rw [h.below_home p hp, h'.below_home p hp]
  · rw [h.elsewhere q ⟨hw, hh⟩, h'.elsewhere q ⟨hw, hh⟩]

/-! ## Preparing -/

section
variable (hplace : t.directoryAt here source = .ok place)
include hplace

theorem prepare_eq (hfits : Path.fits target.render) (hroot : sys.copyError? place = none) :
    s.prepare t here source target sys =
      (s.copy (s.make t) ⟨place, source, target⟩ sys,
        copyDefect? ⟨place, source, target⟩ sys
          (s.copied (s.make t) ⟨place, source, target⟩ sys)
          (s.missed (s.make t) ⟨place, source, target⟩ sys)) := by
  have hmade : (s.make t).directoryAt here source = .ok place := directoryAt_extend hplace _
  rw [prepare, if_pos hfits]
  simp only [hmade, hroot]

theorem prepare_of_refused {text : String} (hfits : Path.fits target.render)
    (hroot : sys.copyError? place = some text) :
    s.prepare t here source target sys = (s.make t, some (.lost (.said text))) := by
  have hmade : (s.make t).directoryAt here source = .ok place := directoryAt_extend hplace _
  rw [prepare, if_pos hfits]
  simp only [hmade, hroot]

/-- A copy is without a defect if the limits are kept, and in no other case. -/
theorem defect_prepare_eq_none_iff (ht : t.IsTree) (hs : s.IsFreshIn t) :
    (s.prepare t here source target sys).2 = none ↔
      s.WithinLimits t ⟨place, source, target⟩ sys := by
  have hdirectory := (directoryAt_eq_ok_iff.mp hplace).2
  by_cases hfits : Path.fits target.render
  · cases hroot : sys.copyError? place with
    | none =>
      have hself : Copying.isShort ⟨place, source, target⟩ [] := by
        rw [Copying.isShort, Path.renderBelow_nil, Path.renderBelow_nil, Bool.and_eq_true]
        exact ⟨fits_of_resolve (directoryAt_eq_ok_iff.mp hplace).1, hfits⟩
      rw [prepare_eq hplace hfits hroot]
      exact copyDefect?_make_eq_none_iff ht hs hdirectory hself hroot
    | some text =>
      rw [prepare_of_refused hplace hfits hroot]
      refine iff_of_false nofun fun hlimits => ?_
      have hadmitted := hlimits.admitted [] (keeps_nil ht hs hdirectory)
        (Option.isSome_of_eq_some (by rwa [List.append_nil]))
      rw [List.append_nil, hroot] at hadmitted
      cases hadmitted
  · rw [prepare, if_neg hfits]
    exact iff_of_false nofun fun hlimits => hfits (fits_of_withinLimits ht hs hdirectory hlimits)

/-- What cannot be copied is not in the workspace. -/
theorem entry?_prepare_eq_none (ht : t.IsTree) (hs : s.IsFreshIn t) (hp : p ≠ [])
    (hcannot : ¬ Copying.canCopy ⟨place, source, target⟩ sys p) :
    entry? (s.prepare t here source target sys).1 (s.workspace ++ p) = none := by
  have hmade := entry?_make_below_workspace ht hs hp
  by_cases hfits : Path.fits target.render
  · cases hroot : sys.copyError? place with
    | none =>
      rw [prepare_eq hplace hfits hroot, Option.eq_none_iff_forall_ne_some]
      intro e he
      rw [entry?_copy_below (isTree_make ht hs) hmade hp] at he
      exact hcannot (mem_copied.mp he).2
    | some text =>
      rw [prepare_of_refused hplace hfits hroot]
      exact hmade
  · rw [prepare, if_neg hfits]
    exact ht.entry?_append_of_free hs.workspace.free p

/-- Without a defect, the workspace is an exact copy. -/
theorem isCopyIn_prepare (ht : t.IsTree) (hs : s.IsFreshIn t)
    (h : (s.prepare t here source target sys).2 = none) :
    s.IsCopyIn t place (s.prepare t here source target sys).1 := by
  have hdirectory := (directoryAt_eq_ok_iff.mp hplace).2
  have hlimits := (defect_prepare_eq_none_iff hplace ht hs).mp h
  have hroot : sys.copyError? place = none := by
    simpa using hlimits.admitted [] (keeps_nil ht hs hdirectory)
      (Option.isSome_of_eq_some (by rwa [List.append_nil]))
  rw [prepare_eq hplace (fits_of_withinLimits ht hs hdirectory hlimits) hroot]
  exact isCopyIn_copy ht hs hdirectory hlimits

end

end ContainerFlow.Scratch
