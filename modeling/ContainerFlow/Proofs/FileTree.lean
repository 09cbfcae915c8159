/-
ContainerFlow.Proofs.FileTree — what is where in a file tree, and in the
tree with more entries.

A tree is a list of entries, and the first at a location is the one that
is there.  In a tree as file systems have them (`FileTree.IsTree`) no
location comes twice, so that an entry is there exactly when it is in the
list (`entry?_eq_some_iff`), and the names in a directory are those of
its entries, each once (`mem_namesIn`, `IsTree.nodup_namesIn`).

Entries that are added behind the others (`FileTree.extend`) leave
whatever is there where it is, so a path that leads somewhere still leads
there (`directoryAt_extend`).  What is held when a directory is taken away
is still there then (`isHeld_remove`).
-/
import Mathlib
import ContainerFlow.FileTree

namespace ContainerFlow.FileTree

variable {t : FileTree} {place top here : Location} {e : Entry} {name : String}

theorem isWithin_iff : isWithin top place ↔ top <+: place := List.isPrefixOf_iff_prefix

/-! ## Entries -/

@[simp] theorem entry?_nil (t : FileTree) : t.entry? [] = some .directory := by
  rw [ entry?, if_pos rfl]

theorem entry?_of_ne_nil (h : place ≠ []) :
    t.entry? place = (t.entries.find? (·.1 == place)).map Prod.snd := by
  rw [ entry?, if_neg h]

theorem ne_nil_of_free (h : t.entry? place = none) : place ≠ [] := by
  rintro rfl
  rw [entry?_nil] at h
  cases h

theorem mem_of_entry?_eq (hne : place ≠ []) (h : t.entry? place = some e) :
    (place, e) ∈ t.entries := by
  rw [entry?_of_ne_nil hne, Option.map_eq_some_iff] at h
  obtain ⟨found, hfound, rfl⟩ := h
  have hplace : found.1 = place := by simpa using List.find?_some hfound
  exact hplace ▸ List.mem_of_find?_eq_some hfound

theorem isSome_entry?_of_mem (h : (place, e) ∈ t.entries) : (t.entry? place).isSome := by
  by_cases hne : place = []
  · rw [hne, entry?_nil]
    rfl
  · rw [entry?_of_ne_nil hne, Option.isSome_map, List.find?_isSome]
    exact ⟨_, h, beq_self_eq_true _⟩

/-- A tree as file systems have them: there are no two entries at one location, and every entry is
in a directory. -/
structure IsTree (t : FileTree) : Prop where
  distinct : (t.entries.map Prod.fst).Nodup
  inDirectory : ∀ e ∈ t.entries, t.entry? e.1.dropLast = some .directory

theorem entry?_eq_some_iff (hdistinct : (t.entries.map Prod.fst).Nodup) (hne : place ≠ []) :
    t.entry? place = some e ↔ (place, e) ∈ t.entries := by
  refine ⟨mem_of_entry?_eq hne, fun h => ?_⟩
  obtain ⟨found, hfound⟩ := Option.isSome_iff_exists.mp (isSome_entry?_of_mem h)
  have heq := List.inj_on_of_nodup_map hdistinct (mem_of_entry?_eq hne hfound) h rfl
  rw [hfound]
  exact congrArg some (Prod.mk.inj heq).2

/-- What something is in is a directory, however far up. -/
theorem IsTree.directory_above (h : t.IsTree) {p : Location} (hp : p ≠ [])
    (he : (t.entry? (top ++ p)).isSome) : t.entry? top = some .directory := by
  induction p using List.reverseRecOn with
  | nil => exact absurd rfl hp
  | append_singleton p last ih =>
    obtain ⟨found, hfound⟩ := Option.isSome_iff_exists.mp he
    have hmem := mem_of_entry?_eq (by simp) hfound
    have hparent := h.inDirectory _ hmem
    rw [← List.append_assoc, List.dropLast_concat] at hparent
    by_cases hnil : p = []
    · rwa [hnil, List.append_nil] at hparent
    · exact ih hnil (Option.isSome_of_eq_some hparent)

/-- What leads to something below a directory is there as well. -/
theorem IsTree.isSome_of_prefix (h : t.IsTree) {p q : Location}
    (hq : q <+: p) (he : (t.entry? (top ++ p)).isSome) : (t.entry? (top ++ q)).isSome := by
  obtain ⟨rest, rfl⟩ := hq
  by_cases hrest : rest = []
  · rwa [hrest, List.append_nil] at he
  · rw [← List.append_assoc] at he
    exact Option.isSome_of_eq_some (h.directory_above hrest he)

/-! ## What is below a location -/

/-- A location, from `top` on, if it is below. -/
def relative? (top place : Location) : Option Location :=
  if isWithin top place && place ≠ top then some (place.drop top.length) else none

theorem relative?_eq_some_iff {p : Location} :
    relative? top place = some p ↔ p ≠ [] ∧ place = top ++ p := by
  unfold relative?
  constructor
  · intro h
    split at h
    · next hbelow =>
      obtain ⟨hwithin, hne⟩ := by simpa using hbelow
      obtain ⟨rest, rfl⟩ := isWithin_iff.mp hwithin
      rw [List.drop_left] at h
      cases h
      exact ⟨by simpa using hne, rfl⟩
    · cases h
  · rintro ⟨hp, rfl⟩
    have hwithin : isWithin top (top ++ p) := isWithin_iff.mpr (List.prefix_append _ _)
    simp [hwithin, hp]

theorem below_eq (t : FileTree) (top : Location) :
    t.below top = t.entries.filterMap fun e => (relative? top e.1).map (·, e.2) := by
  refine List.filterMap_congr fun entry _ => ?_
  unfold relative?
  split <;> rfl

theorem mem_below {p : Location} : (p, e) ∈ t.below top ↔ p ≠ [] ∧ (top ++ p, e) ∈ t.entries := by
  rw [below_eq, List.mem_filterMap]
  constructor
  · rintro ⟨⟨found, other⟩, hmem, h⟩
    obtain ⟨rest, hrest, heq⟩ := Option.map_eq_some_iff.mp h
    cases heq
    obtain ⟨hp, rfl⟩ := relative?_eq_some_iff.mp hrest
    exact ⟨hp, hmem⟩
  · rintro ⟨hp, hmem⟩
    refine ⟨_, hmem, ?_⟩
    rw [relative?_eq_some_iff.mpr ⟨hp, rfl⟩]
    rfl

theorem IsTree.nodup_below (h : t.IsTree) (top : Location) :
    ((t.below top).map Prod.fst).Nodup := by
  have heq : (t.below top).map Prod.fst = (t.entries.map Prod.fst).filterMap (relative? top) := by
    rw [below_eq, List.map_filterMap, List.filterMap_map]
    refine List.filterMap_congr fun entry _ => ?_
    simp only [Function.comp_apply]
    cases relative? top entry.1 <;> rfl
  rw [heq]
  refine h.distinct.filterMap fun a b found ha hb => ?_
  rw [(relative?_eq_some_iff.mp ha).2, (relative?_eq_some_iff.mp hb).2]

/-! ## Names in a directory -/

/-- The only name on the way to a location. -/
def onlyName? (p : Location) : Option String := if p.length = 1 then p.head? else none

theorem onlyName?_eq_some_iff {p : Location} : onlyName? p = some name ↔ p = [name] := by
  unfold onlyName?
  match p with
  | [] => simp
  | [only] => simp
  | _ :: _ :: _ => simp

theorem namesIn_eq (t : FileTree) (top : Location) :
    t.namesIn top = ((t.below top).map Prod.fst).filterMap onlyName? := by
  rw [List.filterMap_map]
  rfl

theorem mem_namesIn : name ∈ t.namesIn top ↔ ∃ e, (top ++ [name], e) ∈ t.entries := by
  rw [namesIn, List.mem_filterMap]
  constructor
  · rintro ⟨⟨p, e⟩, hmem, hname⟩
    obtain rfl := onlyName?_eq_some_iff.mp hname
    exact ⟨e, (mem_below.mp hmem).2⟩
  · rintro ⟨e, he⟩
    exact ⟨_, mem_below.mpr ⟨by simp, he⟩, onlyName?_eq_some_iff.mpr rfl⟩

theorem IsTree.nodup_namesIn (h : t.IsTree) (top : Location) : (t.namesIn top).Nodup := by
  rw [namesIn_eq]
  refine (h.nodup_below top).filterMap fun a b found ha hb => ?_
  rw [onlyName?_eq_some_iff.mp ha, onlyName?_eq_some_iff.mp hb]

/-- What leads to an entry below a directory starts with a name in the directory. -/
theorem IsTree.mem_namesIn_of_isSome (h : t.IsTree) {p : Location}
    (he : (t.entry? (top ++ name :: p)).isSome) : name ∈ t.namesIn top := by
  have hfirst : (t.entry? (top ++ [name])).isSome := by
    by_cases hp : p = []
    · rwa [hp] at he
    · rw [List.append_cons] at he
      exact Option.isSome_of_eq_some (h.directory_above hp he)
  obtain ⟨found, hfound⟩ := Option.isSome_iff_exists.mp hfirst
  exact mem_namesIn.mpr ⟨found, mem_of_entry?_eq (by simp) hfound⟩

/-! ## More entries -/

/-- The tree with entries behind its own. -/
def extend (t : FileTree) (more : List (Location × Entry)) : FileTree := ⟨t.entries ++ more⟩

@[simp] theorem entries_extend (t : FileTree) (more : List (Location × Entry)) :
    (t.extend more).entries = t.entries ++ more := rfl

@[simp] theorem extend_nil (t : FileTree) : t.extend [] = t := by
  simp [extend]

@[simp] theorem extend_extend (t : FileTree) (more later : List (Location × Entry)) :
    (t.extend more).extend later = t.extend (more ++ later) := by
  simp [extend]

variable {more : List (Location × Entry)}

theorem entry?_extend_of_some (h : t.entry? place = some e) (more : List (Location × Entry)) :
    entry? (t.extend more) place = some e := by
  by_cases hne : place = []
  · subst hne
    exact h
  · rw [entry?_of_ne_nil hne, Option.map_eq_some_iff] at h ⊢
    obtain ⟨found, hfound, rfl⟩ := h
    exact ⟨found, by simp [hfound], rfl⟩

/-- Elsewhere there is what there was. -/
theorem entry?_extend_of_ne (h : ∀ e ∈ more, e.1 ≠ place) :
    entry? (t.extend more) place = t.entry? place := by
  by_cases hne : place = []
  · rw [hne, entry?_nil, entry?_nil]
  · have hnone : more.find? (·.1 == place) = none := by simpa using h
    rw [entry?_of_ne_nil hne, entry?_of_ne_nil hne, entries_extend, List.find?_append, hnone,
      Option.or_none]

theorem entry?_extend_of_none (h : t.entry? place = none) (more : List (Location × Entry)) :
    entry? (t.extend more) place = entry? ⟨more⟩ place := by
  have hne := ne_nil_of_free h
  rw [entry?_of_ne_nil hne] at h ⊢
  rw [entry?_of_ne_nil hne, entries_extend, List.find?_append, Option.map_eq_none_iff.mp h,
    Option.none_or]

/-- A location where there is nothing yet, in a directory. -/
structure IsVacant (t : FileTree) (place : Location) : Prop where
  free : t.entry? place = none
  inDirectory : t.entry? place.dropLast = some .directory

/-- Nothing is below a location where nothing is. -/
theorem IsTree.entry?_append_of_free (h : t.IsTree) (hfree : t.entry? top = none) (p : Location) :
    t.entry? (top ++ p) = none := by
  by_cases hp : p = []
  · rwa [hp, List.append_nil]
  · by_contra hsome
    rw [h.directory_above hp (Option.isSome_iff_ne_none.mpr hsome)] at hfree
    cases hfree

theorem IsTree.not_prefix_of_free (h : t.IsTree) (hfree : t.entry? top = none)
    (he : (t.entry? place).isSome) : ¬ top <+: place := by
  rintro ⟨p, rfl⟩
  rw [h.entry?_append_of_free hfree] at he
  cases he

/-- A vacant location is below no other location where nothing is. -/
theorem IsTree.not_prefix_of_isVacant (h : t.IsTree) (hfree : t.entry? top = none)
    (hvacant : t.IsVacant place) (hne : top ≠ place) : ¬ top <+: place := by
  rintro ⟨p, rfl⟩
  have hp : p ≠ [] := by
    rintro rfl
    exact hne (List.append_nil top).symm
  have habove := h.not_prefix_of_free hfree (Option.isSome_of_eq_some hvacant.inDirectory)
  rw [List.dropLast_append_of_ne_nil hp] at habove
  exact habove (List.prefix_append _ _)

/-- Something at a vacant location gives another tree. -/
theorem IsTree.extend_of_isVacant (h : t.IsTree) (hvacant : t.IsVacant place) (e : Entry) :
    (t.extend [(place, e)]).IsTree := by
  constructor
  case distinct =>
    rw [entries_extend, List.map_append, List.map_singleton, ← List.concat_eq_append,
      List.nodup_concat]
    refine ⟨fun hmem => ?_, h.distinct⟩
    obtain ⟨entry, hentry, rfl⟩ := List.mem_map.mp hmem
    have hsome := isSome_entry?_of_mem hentry
    rw [hvacant.free] at hsome
    cases hsome
  case inDirectory =>
    intro entry hentry
    refine entry?_extend_of_some ?_ _
    rcases List.mem_append.mp hentry with hold | hnew
    · exact h.inDirectory entry hold
    · rw [List.mem_singleton.mp hnew]
      exact hvacant.inDirectory

theorem insert_of_none (h : t.entry? place = none) :
    t.insert place e = t.extend [(place, e)] := by
  rw [insert, h]
  rfl

theorem entry?_insert_self (h : t.entry? place = none) :
    entry? (t.insert place e) place = some e := by
  have hne := ne_nil_of_free h
  rw [insert_of_none h, entry?_of_ne_nil hne]
  rw [entry?_of_ne_nil hne, Option.map_eq_none_iff] at h
  simp [h]

theorem entry?_insert_of_ne {other : Location} (h : place ≠ other) :
    entry? (t.insert place e) other = t.entry? other := by
  unfold insert
  split
  · rfl
  · exact entry?_extend_of_ne (by simpa using h)

theorem entry?_insert_iff {other : Location} {a : Entry} (h : t.entry? place = none) :
    entry? (t.insert place e) other = some a ↔
      t.entry? other = some a ∨ other = place ∧ a = e := by
  by_cases heq : other = place
  · subst heq
    rw [entry?_insert_self h, h]
    simp [eq_comm]
  · rw [entry?_insert_of_ne (Ne.symm heq)]
    simp [heq]

theorem namesIn_extend (t : FileTree) (more : List (Location × Entry)) (top : Location) :
    (t.extend more).namesIn top = t.namesIn top ++ (FileTree.mk more).namesIn top := by
  simp [namesIn, below]

/-- Entries further down are not in the directory. -/
theorem namesIn_extend_of_ne (h : ∀ e ∈ more, ∀ name, e.1 ≠ top ++ [name]) :
    (t.extend more).namesIn top = t.namesIn top := by
  have hnone : (FileTree.mk more).namesIn top = [] := by
    refine List.eq_nil_iff_forall_not_mem.mpr fun name hname => ?_
    obtain ⟨e, he⟩ := mem_namesIn.mp hname
    exact h _ he name rfl
  rw [namesIn_extend, hnone, List.append_nil]

/-! ## Fewer entries -/

variable {held : Location → Bool}

theorem isHeld_iff : t.isHeld held place ↔ ∃ e ∈ t.entries, place <+: e.1 ∧ held e.1 := by
  simp [isHeld, ← isWithin_iff]

theorem isHeld_of_mem {entry : Location × Entry} (h : entry ∈ t.entries) (hheld : held entry.1) :
    t.isHeld held entry.1 :=
  isHeld_iff.mpr ⟨entry, h, List.prefix_rfl, hheld⟩

theorem mem_remove {entry : Location × Entry} :
    entry ∈ (t.remove top held).entries ↔
      entry ∈ t.entries ∧ (top <+: entry.1 → t.isHeld held entry.1) := by
  rw [ remove, List.mem_filter, ← isWithin_iff]
  simp [or_iff_not_imp_left]

/-- What is held stays when something is taken away. -/
@[simp] theorem isHeld_remove (t : FileTree) (top : Location) (held : Location → Bool)
    (place : Location) : (t.remove top held).isHeld held place = t.isHeld held place := by
  rw [Bool.eq_iff_iff, isHeld_iff, isHeld_iff]
  constructor
  · rintro ⟨entry, hmem, h⟩
    exact ⟨entry, (mem_remove.mp hmem).1, h⟩
  · rintro ⟨entry, hmem, hprefix, hheld⟩
    exact ⟨entry, mem_remove.mpr ⟨hmem, fun _ => isHeld_of_mem hmem hheld⟩, hprefix, hheld⟩

/-! ## Paths -/

theorem follow_extend {parts : List String} (h : t.follow here parts = .ok place)
    (more : List (Location × Entry)) : (t.extend more).follow here parts = .ok place := by
  induction parts generalizing here with
  | nil => exact h
  | cons part rest ih =>
    rw [follow] at h ⊢
    split at h
    · next hdirectory =>
      rw [entry?_extend_of_some hdirectory]
      simp only
      split at h
      · next hup =>
        rw [if_pos hup]
        exact ih h
      next hup =>
      rw [if_neg hup]
      split at h
      · cases h
      next hshort =>
      rw [if_neg hshort]
      split at h
      · next hsome =>
        obtain ⟨found, hfound⟩ := Option.isSome_iff_exists.mp hsome
        rw [entry?_extend_of_some hfound]
        exact ih h
      · cases h
    · cases h
    · cases h

theorem resolve_extend {p : Path} (h : t.resolve here p = .ok place)
    (more : List (Location × Entry)) : (t.extend more).resolve here p = .ok place := by
  unfold resolve at h ⊢
  split at h
  · cases h
  · split at h <;> exact follow_extend h more

/-- A path that leads anywhere is short enough for a path. -/
theorem fits_of_resolve {p : Path} (h : t.resolve here p = .ok place) : Path.fits p.render := by
  unfold resolve at h
  cases hproblem : Path.textProblem? p.render with
  | some problem =>
    rw [hproblem] at h
    cases h
  | none =>
    unfold Path.textProblem? at hproblem
    split at hproblem
    · cases hproblem
    split at hproblem
    · assumption
    · cases hproblem

theorem directoryAt_eq_ok_iff {p : Path} :
    t.directoryAt here p = .ok place ↔
      t.resolve here p = .ok place ∧ t.entry? place = some .directory := by
  unfold directoryAt
  constructor
  · intro h
    split at h
    · next hresolve =>
      split at h
      · next hdirectory =>
        cases h
        exact ⟨hresolve, hdirectory⟩
      · cases h
      · cases h
    · cases h
  · rintro ⟨hresolve, hdirectory⟩
    simp only [hresolve, hdirectory]

/-- A path that leads to a directory still leads there. -/
theorem directoryAt_extend {p : Path} (h : t.directoryAt here p = .ok place)
    (more : List (Location × Entry)) : (t.extend more).directoryAt here p = .ok place := by
  obtain ⟨hresolve, hdirectory⟩ := directoryAt_eq_ok_iff.mp h
  exact directoryAt_eq_ok_iff.mpr
    ⟨resolve_extend hresolve more, entry?_extend_of_some hdirectory more⟩

end ContainerFlow.FileTree
