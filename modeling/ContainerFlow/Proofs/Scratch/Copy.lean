/-
ContainerFlow.Proofs.Scratch.Copy — the copy, directory by directory.

`Scratch.copy` takes all that is to be copied at once, from the tree as it
is before.  Who copies a tree of files has no such tree: a directory is
listed when its turn comes, and by then the copy has got so far, perhaps
in that very directory.  `Scratch.Copies` is such a copy; it lists each
directory once, in any order, and skips names by `Scratch.skips`.

The rule keeps it out of the workspace, so that all it reads is as it was
before (`Fills.namesIn_eq`).  Hence it ends (`exists_copies`), it can end
in one way only (`Copies.unique`), and what it leaves is the exact copy
(`Copies.isCopyIn`).

The main statement is `workspace_is_exact_copy`.
-/
import Mathlib
import ContainerFlow.Proofs.Scratch

namespace ContainerFlow.Scratch

open FileTree

/-- The copy of these names of the directory `here` to the directory `dest`, from the tree as it is
before to the tree as it is then.  A directory is listed before its copy is made. -/
inductive Copies (s : Scratch) (lists : FileTree → Location → List String) :
    Location → Location → List String → FileTree → FileTree → Prop
  | done {here dest t} : Copies s lists here dest [] t t
  | skip {here dest name names t u} :
      s.skips here name →
      Copies s lists here dest names t u →
      Copies s lists here dest (name :: names) t u
  | file {here dest name names t u content} :
      ¬ s.skips here name →
      t.entry? (here ++ [name]) = some (.file content) →
      Copies s lists here dest names (t.insert (dest ++ [name]) (.file content)) u →
      Copies s lists here dest (name :: names) t u
  | directory {here dest name names t u v} :
      ¬ s.skips here name →
      t.entry? (here ++ [name]) = some .directory →
      Copies s lists (here ++ [name]) (dest ++ [name]) (lists t (here ++ [name]))
        (t.insert (dest ++ [name]) .directory) v →
      Copies s lists here dest names v u →
      Copies s lists here dest (name :: names) t u

variable {s : Scratch} {lists : FileTree → Location → List String} {m t u v : FileTree}
  {place here dest p q : Location} {source target : Path} {sys : System} {name : String}
  {names : List String} {e : Entry}

/-- There is one way only that a copy can end. -/
theorem Copies.unique (h : s.Copies lists here dest names t u)
    (h' : s.Copies lists here dest names t v) : u = v := by
  induction h generalizing v with
  | done =>
    cases h'
    rfl
  | skip hskips _ ih =>
    cases h' with
    | skip _ hrest => exact ih hrest
    | file hnot => exact absurd hskips hnot
    | directory hnot => exact absurd hskips hnot
  | file hnot he _ ih =>
    cases h' with
    | skip hskips => exact absurd hskips hnot
    | file _ he' hrest =>
      obtain rfl : _ = _ := Entry.file.inj (Option.some.inj (he.symm.trans he'))
      exact ih hrest
    | directory _ he' =>
      rw [he] at he'
      cases he'
  | directory hnot he _ _ ihinner ihrest =>
    cases h' with
    | skip hskips => exact absurd hskips hnot
    | file _ he' =>
      rw [he] at he'
      cases he'
    | directory _ _ hinner hrest =>
      obtain rfl := ihinner hinner
      exact ihrest hrest

/-! ## What a copy reads -/

/-- More in the workspace is not more in a directory that is somewhere else. -/
theorem Fills.namesIn_eq (h : s.Fills m t) (hw : ¬ s.workspace <+: here) :
    t.namesIn here = m.namesIn here := by
  obtain ⟨more, hmore, rfl⟩ := h
  refine namesIn_extend_of_ne fun entry hentry name hname => ?_
  obtain ⟨p, hp, heq⟩ := hmore entry hentry
  have hprefix : s.workspace <+: here ++ [name] := ⟨p, heq.symm.trans hname⟩
  rcases List.prefix_concat_iff.mp hprefix with htop | hbelow
  · rw [hname, ← htop] at heq
    exact hp (List.append_right_eq_self.mp heq.symm)
  · exact hw hbelow

theorem Fills.insert (h : s.Fills m t) (hdest : s.workspace <+: dest) (name : String) (e : Entry) :
    s.Fills m (t.insert (dest ++ [name]) e) := by
  unfold FileTree.insert
  split
  · exact h
  · obtain ⟨more, hmore, rfl⟩ := h
    obtain ⟨p, rfl⟩ := hdest
    refine ⟨more ++ [(s.workspace ++ p ++ [name], e)], fun entry hentry => ?_, ?_⟩
    · rcases List.mem_append.mp hentry with hold | hnew
      · exact hmore entry hold
      · rw [List.mem_singleton.mp hnew]
        exact ⟨p ++ [name], by simp, List.append_assoc _ _ _⟩
    · rw [← extend_extend]
      rfl

/-- A copy to the workspace is one that puts things there. -/
theorem Copies.fills (h : s.Copies lists here dest names t u) (hfills : s.Fills m t)
    (hdest : s.workspace <+: dest) : s.Fills m u := by
  induction h with
  | done => exact hfills
  | skip _ _ ih => exact ih hfills hdest
  | file _ _ _ ih => exact ih (hfills.insert hdest _ _) hdest
  | directory _ _ _ _ ihinner ihrest =>
    exact ihrest (ihinner (hfills.insert hdest _ _) (hdest.trans (List.prefix_append _ _))) hdest

/-! ## A copy ends -/

section
variable (hlists : ∀ t here, (lists t here).Perm (t.namesIn here))
include hlists

/-- A copy of one name more ends, if that of what is below the name ends, and that of the rest. -/
theorem exists_copies_cons (hfills : s.Fills m t) (houtside : s.Outside here)
    (hdest : s.workspace <+: dest) (hname : name ∈ m.namesIn here)
    (hinner : ∀ t inner, s.Outside (here ++ [name]) → s.Fills m t →
      (∀ other ∈ inner, other ∈ m.namesIn (here ++ [name])) →
      ∃ v, s.Copies lists (here ++ [name]) (dest ++ [name]) inner t v)
    (hrest : ∀ t, s.Fills m t → ∃ u, s.Copies lists here dest names t u) :
    ∃ u, s.Copies lists here dest (name :: names) t u := by
  by_cases hskips : s.skips here name
  · obtain ⟨u, hu⟩ := hrest t hfills
    exact ⟨u, .skip hskips hu⟩
  have hbelow := houtside.concat hskips
  obtain ⟨e, he⟩ : ∃ e, t.entry? (here ++ [name]) = some e := by
    obtain ⟨e, he⟩ := mem_namesIn.mp hname
    rw [hfills.entry?_of_not_prefix hbelow.not_workspace]
    exact Option.isSome_iff_exists.mp (isSome_entry?_of_mem he)
  have hinsert := hfills.insert hdest name e
  cases e with
  | file content =>
    obtain ⟨u, hu⟩ := hrest _ hinsert
    exact ⟨u, .file hskips he hu⟩
  | directory =>
    have hlisted : ∀ other ∈ lists t (here ++ [name]), other ∈ m.namesIn (here ++ [name]) := by
      intro other hother
      rw [← hfills.namesIn_eq hbelow.not_workspace]
      exact (hlists t _).mem_iff.mp hother
    obtain ⟨v, hv⟩ := hinner _ _ hbelow hinsert hlisted
    obtain ⟨u, hu⟩ := hrest v (hv.fills hinsert (hdest.trans (List.prefix_append _ _)))
    exact ⟨u, .directory hskips he hv hu⟩

/-- A copy ends, since it goes down only where the tree did from the start: `depth` is how much
deeper than `here` the tree is. -/
theorem exists_copies (depth : Nat)
    (hdepth : ∀ e ∈ m.entries, e.1.length ≤ here.length + depth) (hfills : s.Fills m t)
    (houtside : s.Outside here) (hdest : s.workspace <+: dest)
    (hnames : ∀ name ∈ names, name ∈ m.namesIn here) :
    ∃ u, s.Copies lists here dest names t u := by
  induction depth generalizing here dest names t with
  | zero =>
    cases names with
    | nil => exact ⟨t, .done⟩
    | cons name rest =>
      obtain ⟨e, he⟩ := mem_namesIn.mp (hnames name List.mem_cons_self)
      have hlength := hdepth _ he
      simp at hlength
  | succ depth ihdepth =>
    induction names generalizing t with
    | nil => exact ⟨t, .done⟩
    | cons name rest ihrest =>
      have hdepth' : ∀ e ∈ m.entries, e.1.length ≤ (here ++ [name]).length + depth := by
        simpa [add_assoc, add_comm 1] using hdepth
      refine exists_copies_cons hlists hfills houtside hdest (hnames name List.mem_cons_self)
        (fun t inner hbelow hfills hinner => ?_) (fun t hfills => ?_)
      · exact ihdepth hdepth' hfills hbelow (hdest.trans (List.prefix_append _ _)) hinner
      · exact ihrest hfills fun other hother => hnames other (List.mem_cons_of_mem _ hother)

end

/-! ## What a copy leaves -/

/-- What a copy of these names of `here` to `dest` puts at a location. -/
def Delivers (s : Scratch) (m : FileTree) (here dest : Location) (names : List String)
    (q : Location) (e : Entry) : Prop :=
  ∃ name ∈ names, ∃ p, q = dest ++ name :: p ∧ s.reaches here (name :: p) ∧
    m.entry? (here ++ name :: p) = some e

theorem delivers_cons :
    s.Delivers m here dest (name :: names) q e ↔
      s.Delivers m here dest [name] q e ∨ s.Delivers m here dest names q e := by
  simp [Delivers]

theorem not_delivers_of_skips (hskips : s.skips here name) :
    ¬ s.Delivers m here dest [name] q e := by
  rintro ⟨other, hother, p, -, hreaches, -⟩
  rw [List.mem_singleton.mp hother] at hreaches
  exact (reaches_cons.mp hreaches).1 hskips

theorem delivers_file (hm : m.IsTree) {content : ByteArray} (hskips : ¬ s.skips here name)
    (he : m.entry? (here ++ [name]) = some (.file content)) :
    s.Delivers m here dest [name] q e ↔ q = dest ++ [name] ∧ e = .file content := by
  constructor
  · rintro ⟨other, hother, p, rfl, -, hentry⟩
    obtain rfl := List.mem_singleton.mp hother
    by_cases hp : p = []
    · subst hp
      exact ⟨rfl, Option.some.inj (hentry.symm.trans he)⟩
    · rw [List.append_cons] at hentry
      rw [hm.directory_above hp (Option.isSome_of_eq_some hentry)] at he
      cases he
  · rintro ⟨rfl, rfl⟩
    exact ⟨name, List.mem_singleton_self _, [], rfl, reaches_cons.mpr ⟨hskips, rfl⟩, he⟩

theorem delivers_directory (hm : m.IsTree) (hskips : ¬ s.skips here name)
    (he : m.entry? (here ++ [name]) = some .directory)
    (hnames : ∀ other, other ∈ names ↔ other ∈ m.namesIn (here ++ [name])) :
    s.Delivers m here dest [name] q e ↔
      (q = dest ++ [name] ∧ e = .directory) ∨
        s.Delivers m (here ++ [name]) (dest ++ [name]) names q e := by
  constructor
  · rintro ⟨other, hother, p, rfl, hreaches, hentry⟩
    obtain rfl := List.mem_singleton.mp hother
    cases p with
    | nil => exact .inl ⟨rfl, Option.some.inj (hentry.symm.trans he)⟩
    | cons next rest =>
      rw [List.append_cons] at hentry
      have hnext := hm.mem_namesIn_of_isSome (Option.isSome_of_eq_some hentry)
      exact .inr ⟨next, (hnames next).mpr hnext, rest, List.append_cons _ _ _,
        (reaches_cons.mp hreaches).2, hentry⟩
  · rintro (⟨rfl, rfl⟩ | ⟨next, -, rest, rfl, hreaches, hentry⟩)
    · exact ⟨name, List.mem_singleton_self _, [], rfl, reaches_cons.mpr ⟨hskips, rfl⟩, he⟩
    · rw [← List.append_cons] at hentry ⊢
      exact ⟨name, List.mem_singleton_self _, next :: rest, rfl,
        reaches_cons.mpr ⟨hskips, hreaches⟩, hentry⟩

/-- There is nothing yet by these names in the directory `dest`. -/
def HasRoom (t : FileTree) (dest : Location) (names : List String) : Prop :=
  ∀ name ∈ names, ∀ p, t.entry? (dest ++ name :: p) = none

theorem ne_of_not_mem {other : String} (hnodup : (name :: names).Nodup) (hother : other ∈ names) :
    name ≠ other :=
  fun heq => (List.nodup_cons.mp hnodup).1 (heq ▸ hother)

theorem HasRoom.insert (h : HasRoom t dest (name :: names)) (hnodup : (name :: names).Nodup)
    (e : Entry) : HasRoom (t.insert (dest ++ [name]) e) dest names := by
  intro other hother p
  have hne : name ≠ other := ne_of_not_mem hnodup hother
  rw [entry?_insert_of_ne (by simp [hne])]
  exact h other (List.mem_cons_of_mem _ hother) p

theorem HasRoom.insert_below (h : HasRoom t dest (name :: names)) (e : Entry)
    (inner : List String) : HasRoom (t.insert (dest ++ [name]) e) (dest ++ [name]) inner := by
  intro other _ p
  rw [entry?_insert_of_ne (by simp), ← List.append_cons]
  exact h name List.mem_cons_self _

/-- What is delivered to a directory takes no room from the names next to it. -/
theorem HasRoom.of_delivers (h : HasRoom t dest names) (hnodup : (name :: names).Nodup)
    {inner : List String}
    (hv : ∀ q e, v.entry? q = some e ↔
      t.entry? q = some e ∨ s.Delivers m here (dest ++ [name]) inner q e) :
    HasRoom v dest names := by
  intro other hother p
  refine Option.eq_none_iff_forall_ne_some.mpr fun e he => ?_
  rcases (hv _ e).mp he with hold | ⟨next, -, rest, heq, -⟩
  · rw [h other hother p] at hold
    cases hold
  · rw [← List.append_cons] at heq
    have hhead := (List.cons.inj (List.append_cancel_left heq)).1
    exact ne_of_not_mem hnodup hother hhead.symm

section
variable (hlists : ∀ t here, (lists t here).Perm (t.namesIn here)) (hm : m.IsTree)
include hlists hm

/-- What a copy leaves: what there was, and what it delivers. -/
theorem Copies.entry?_iff (h : s.Copies lists here dest names t u)
    (hfills : s.Fills m t) (houtside : s.Outside here) (hdest : s.workspace <+: dest)
    (hnodup : names.Nodup) (hroom : HasRoom t dest names) (q : Location) (e : Entry) :
    u.entry? q = some e ↔ t.entry? q = some e ∨ s.Delivers m here dest names q e := by
  induction h generalizing q e with
  | done => simp [Delivers]
  | skip hskips _ ih =>
    have hrest := ih hfills houtside hdest hnodup.of_cons
      fun other hother => hroom other (List.mem_cons_of_mem _ hother)
    rw [hrest, delivers_cons, or_iff_right (not_delivers_of_skips hskips)]
  | @file here dest name names t u content hskips he _ ih =>
    rw [hfills.entry?_of_not_prefix (houtside.concat hskips).not_workspace] at he
    have hrest := ih (hfills.insert hdest name _) houtside hdest hnodup.of_cons
      (hroom.insert hnodup _)
    rw [hrest, entry?_insert_iff (hroom name List.mem_cons_self []), delivers_cons,
      delivers_file hm hskips he, or_assoc]
  | @directory here dest name names t u v hskips he hinner _ ihinner ihrest =>
    have hbelow : s.workspace <+: dest ++ [name] := hdest.trans (List.prefix_append _ _)
    have hinner_outside := houtside.concat hskips
    have hinsert := hfills.insert hdest name .directory
    have hread := hfills.namesIn_eq hinner_outside.not_workspace
    have hunique : (lists t (here ++ [name])).Nodup := by
      rw [(hlists t _).nodup_iff, hread]
      exact hm.nodup_namesIn _
    have hinside := ihinner hinsert hinner_outside hbelow hunique (hroom.insert_below _ _)
    have hrest := ihrest (hinner.fills hinsert hbelow) houtside hdest hnodup.of_cons
      ((hroom.insert hnodup _).of_delivers hnodup hinside)
    rw [hfills.entry?_of_not_prefix hinner_outside.not_workspace] at he
    rw [hrest, hinside, entry?_insert_iff (hroom name List.mem_cons_self []), delivers_cons,
      delivers_directory hm hskips he (fun other => by rw [(hlists t _).mem_iff, hread]), or_assoc,
      or_assoc, or_assoc]

end

/-! ## The copy of a source -/

section
variable (hlists : ∀ t here, (lists t here).Perm (t.namesIn here)) (ht : t.IsTree)
  (hs : s.IsFreshIn t) (hplace : t.entry? place = some .directory)
include hlists ht hs hplace

/-- However it goes from name to name, a copy of a source is an exact one. -/
theorem Copies.isCopyIn
    (h : s.Copies lists place s.workspace (lists (s.make t) place) (s.make t) u) :
    s.IsCopyIn t place u := by
  have hmade := isTree_make ht hs
  have houtside := outside_place ht hs hplace
  have hnodup : (lists (s.make t) place).Nodup := by
    rw [(hlists _ _).nodup_iff]
    exact hmade.nodup_namesIn place
  have hroom : HasRoom (s.make t) s.workspace (lists (s.make t) place) := fun name _ p =>
    entry?_make_below_workspace ht hs (List.cons_ne_nil name p)
  have hfills := Fills.refl s (s.make t)
  refine isCopyIn_of_fills ht hs hplace (h.fills hfills List.prefix_rfl) fun p hp e => ?_
  rw [h.entry?_iff hlists hmade hfills houtside List.prefix_rfl hnodup hroom,
    entry?_make_below_workspace ht hs hp]
  constructor
  · rintro (hnone | ⟨name, -, rest, heq, hreaches, he⟩)
    · cases hnone
    · rw [List.append_cancel_left heq]
      have hkeeps := (reaches_iff houtside).mp hreaches
      exact ⟨hkeeps, hkeeps.outside.entry?_make t ▸ he⟩
  · rintro ⟨hkeeps, he⟩
    obtain ⟨name, rest, rfl⟩ := List.exists_cons_of_ne_nil hp
    have he' : entry? (s.make t) (place ++ name :: rest) = some e := by
      rw [hkeeps.outside.entry?_make, he]
    have hname : name ∈ lists (s.make t) place := by
      rw [(hlists _ _).mem_iff]
      exact hmade.mem_namesIn_of_isSome (Option.isSome_of_eq_some he')
    exact .inr ⟨name, hname, rest, rfl, (reaches_iff houtside).mpr hkeeps, he'⟩

/-- A copy of a source ends. -/
theorem exists_copies_make :
    ∃ u, s.Copies lists place s.workspace (lists (s.make t) place) (s.make t) u := by
  have hdepth : ∀ e ∈ (s.make t).entries,
      e.1.length ≤ place.length + ((s.make t).entries.map (·.1.length)).sum := by
    intro e he
    have hle := List.le_sum_of_mem (List.mem_map_of_mem (f := (·.1.length)) he)
    omega
  exact exists_copies hlists _ hdepth (Fills.refl s _) (outside_place ht hs hplace)
    List.prefix_rfl fun name hname => (hlists _ _).mem_iff.mp hname

end

/-- The workspace is an exact copy of the source, wherever the scratch directories are.  Preparing
it goes wrong if a path is too long, if the system refuses something, or if directories are nested
too deeply, and in no other case; and to copy one directory after the other, while the tree changes,
is to come to an end, and always to the same. -/
theorem workspace_is_exact_copy (sys : System) (ht : t.IsTree) (hs : s.IsFreshIn t)
    (hplace : t.directoryAt here source = .ok place)
    (hlists : ∀ t here, (lists t here).Perm (t.namesIn here)) :
    ((s.prepare t here source target sys).2 = none ↔
      s.WithinLimits t ⟨place, source, target⟩ sys) ∧
    ((s.prepare t here source target sys).2 = none →
      s.IsCopyIn t place (s.prepare t here source target sys).1) ∧
    ∃ u, (∀ v, s.Copies lists place s.workspace (lists (s.make t) place) (s.make t) v ↔ v = u) ∧
      ((s.prepare t here source target sys).2 = none →
        ∀ q, u.entry? q = entry? (s.prepare t here source target sys).1 q) := by
  have hdirectory := (directoryAt_eq_ok_iff.mp hplace).2
  obtain ⟨u, hu⟩ := exists_copies_make hlists ht hs hdirectory
  refine ⟨defect_prepare_eq_none_iff hplace ht hs, isCopyIn_prepare hplace ht hs, u, ?_, ?_⟩
  · exact fun v => ⟨fun hv => hv.unique hu, fun heq => heq ▸ hu⟩
  · exact fun hnone => (hu.isCopyIn hlists ht hs hdirectory).entry?_eq
      (isCopyIn_prepare hplace ht hs hnone)

/-- A repository with directories of the version control at two depths, and with the place for
scratch directories in it. -/
def repository : FileTree :=
  ⟨[(["r"], .directory), (["r", ".git"], .directory), (["r", ".git", "HEAD"], .file ⟨#[1]⟩),
    (["r", "sub"], .directory), (["r", "sub", ".git"], .file ⟨#[2]⟩),
    (["r", "sub", "main.c"], .file ⟨#[3]⟩), (["r", "tmp"], .directory)]⟩

/-- The scratch directories are in the source, and the copy of what they are in is empty. -/
theorem workspace_is_exact_copy_repository :
    let s := fresh repository ["r", "tmp"]
    let prepared := s.prepare repository [] ⟨.here, ["r"]⟩ ⟨.top, s.workspace⟩
    repository.IsTree ∧ s.IsFreshIn repository ∧
    repository.directoryAt [] ⟨.here, ["r"]⟩ = .ok ["r"] ∧
    (∀ t here, (namesIn t here).Perm (namesIn t here)) ∧
    prepared.2 = none ∧ s.IsCopyIn repository ["r"] prepared.1 ∧
    entry? prepared.1 (s.workspace ++ ["sub", "main.c"]) = some (.file ⟨#[3]⟩) ∧
    entry? prepared.1 (s.workspace ++ ["sub", ".git"]) = none ∧
    entry? prepared.1 (s.workspace ++ ["tmp"]) = some .directory ∧
    (∀ name e, entry? prepared.1 (s.workspace ++ ["tmp", name]) ≠ some e) ∧
    ∃ u, s.Copies namesIn ["r"] s.workspace (namesIn (s.make repository) ["r"])
      (s.make repository) u := by
  intro s prepared
  have ht : repository.IsTree := ⟨by decide, by decide⟩
  have hs : s.IsFreshIn repository := isFreshIn_fresh (by decide)
  have hplace : repository.directoryAt [] ⟨.here, ["r"]⟩ = .ok ["r"] := by decide
  have hnone : prepared.2 = none := Option.isNone_iff_eq_none.mp (by decide +kernel)
  have hlists : ∀ t here, (namesIn t here).Perm (namesIn t here) := fun _ _ => .rfl
  obtain ⟨hcopy, u, hu, -⟩ : (prepared.2 = none → s.IsCopyIn repository ["r"] prepared.1) ∧ _ :=
    (workspace_is_exact_copy {} ht hs hplace hlists).2
  have hcopy := hcopy hnone
  refine ⟨ht, hs, hplace, hlists, hnone, hcopy, ?_, ?_, ?_, ?_, u, (hu u).mpr rfl⟩
  · exact (hcopy.workspace _ _).mpr ⟨⟨by decide, by decide, by decide⟩, by decide⟩
  · exact Option.eq_none_iff_forall_ne_some.mpr fun e he =>
      ((hcopy.workspace _ e).mp he).1.not_ignored (by decide)
  · exact (hcopy.workspace _ _).mpr ⟨⟨by decide, by decide, by decide⟩, by decide⟩
  · intro name e he
    have hmem := mem_of_entry?_eq (by simp) ((hcopy.workspace _ e).mp he).2
    simp [repository] at hmem

/-! ## Copies that cannot be made -/

/-- Something that is to be copied from the directory `r` of a tree, and the copy fails. -/
structure Fails (s : Scratch) (t : FileTree) (sys : System) (p : Location) : Prop where
  isTree : t.IsTree
  isFresh : s.IsFreshIn t
  source : t.directoryAt [] ⟨.here, ["r"]⟩ = .ok ["r"]
  keeps : s.Keeps ["r"] p
  isThere : (t.entry? (["r"] ++ p)).isSome
  defect : (s.prepare t [] ⟨.here, ["r"]⟩ ⟨.top, s.workspace⟩ sys).2 ≠ none

/-- What cannot be copied is not there afterwards. -/
theorem Fails.entry?_eq_none (h : s.Fails t sys p) (hp : p ≠ [])
    (hcannot : ¬ Copying.canCopy ⟨["r"], ⟨.here, ["r"]⟩, ⟨.top, s.workspace⟩⟩ sys p) :
    entry? (s.prepare t [] ⟨.here, ["r"]⟩ ⟨.top, s.workspace⟩ sys).1 (s.workspace ++ p) = none :=
  entry?_prepare_eq_none h.source h.isTree h.isFresh hp hcannot

/-- What is out of the limits fails. -/
theorem fails_of_not_withinLimits (ht : t.IsTree) (hs : s.IsFreshIn t)
    (hsource : t.directoryAt [] ⟨.here, ["r"]⟩ = .ok ["r"]) (hkeeps : s.Keeps ["r"] p)
    (he : (t.entry? (["r"] ++ p)).isSome)
    (hnot : ¬ s.WithinLimits t ⟨["r"], ⟨.here, ["r"]⟩, ⟨.top, s.workspace⟩⟩ sys) :
    s.Fails t sys p :=
  ⟨ht, hs, hsource, hkeeps, he, mt (defect_prepare_eq_none_iff hsource ht hs).mp hnot⟩

/-- A place for scratch directories: its path is long, but not too long for a path. -/
def deepTop : Location :=
  List.replicate 19 (String.ofList (List.replicate 199 't')) ++
    [String.ofList (List.replicate 99 't')]

/-- A name that is not too long for a name. -/
def longName : String := String.ofList (List.replicate 250 'n')

/-- A repository with one file, next to the place for scratch directories. -/
def deepTree : FileTree :=
  makeDirectories ⟨[(["r"], .directory), (["r", longName], .file "x".toUTF8)]⟩ [] deepTop

/-- The scratch directories in this place. -/
def deepScratch : Scratch :=
  ⟨deepTop ++ ["actionflow-workspace-0"], deepTop ++ ["actionflow-home-0"]⟩

theorem not_isShort_longName :
    ¬ Copying.isShort ⟨["r"], ⟨.here, ["r"]⟩, ⟨.top, deepScratch.workspace⟩⟩ [longName] := by
  decide +kernel

theorem fails_longName : deepScratch.Fails deepTree {} [longName] := by
  have ht : deepTree.IsTree := ⟨by decide +kernel, by decide +kernel⟩
  have hs : deepScratch.IsFreshIn deepTree :=
    ⟨by decide +kernel, ⟨by decide +kernel, by decide +kernel⟩,
      ⟨by decide +kernel, by decide +kernel⟩⟩
  have hkeeps : deepScratch.Keeps ["r"] [longName] :=
    ⟨by decide +kernel, by decide +kernel, by decide +kernel⟩
  have he : (deepTree.entry? (["r"] ++ [longName])).isSome := by decide +kernel
  refine fails_of_not_withinLimits ht hs (by decide +kernel) hkeeps he fun hlimits => ?_
  exact not_isShort_longName (hlimits.short _ hkeeps he)

/-- A system that does not let a file be read. -/
def lockedSystem : System where
  copyError? place :=
    if place = ["r", "sub", "main.c"] then some "[Errno 13] Permission denied: 'r/sub/main.c'"
    else none

theorem fails_locked :
    (fresh repository ["r", "tmp"]).Fails repository lockedSystem ["sub", "main.c"] := by
  have hkeeps : (fresh repository ["r", "tmp"]).Keeps ["r"] ["sub", "main.c"] :=
    ⟨by decide, by decide, by decide⟩
  have he : (repository.entry? (["r"] ++ ["sub", "main.c"])).isSome := by decide
  refine fails_of_not_withinLimits ⟨by decide, by decide⟩ (isFreshIn_fresh (by decide))
    (by decide) hkeeps he fun hlimits => ?_
  cases hlimits.admitted _ hkeeps he

/-- A repository with a directory in a directory, and a place for scratch directories. -/
def nested : FileTree :=
  ⟨[(["r"], .directory), (["r", "a"], .directory), (["r", "a", "b"], .directory),
    (["tmp"], .directory)]⟩

theorem fails_nested : (fresh nested ["tmp"]).Fails nested { depth? := some 1 } ["a", "b"] := by
  have hkeeps : (fresh nested ["tmp"]).Keeps ["r"] ["a", "b"] := ⟨by decide, by decide, by decide⟩
  have he : nested.entry? (["r"] ++ ["a", "b"]) = some .directory := by decide
  refine fails_of_not_withinLimits ⟨by decide, by decide⟩ (isFreshIn_fresh (by decide))
    (by decide) hkeeps (Option.isSome_of_eq_some he) fun hlimits => ?_
  exact absurd (hlimits.shallow _ 1 hkeeps he rfl) (by decide)

/-- There is no copy of a file whose copy has too long a path, of one that may not be read, and of
directories for which the stack is too small.  The two files are not in the workspace then. -/
theorem workspace_is_not_made :
    let deep := deepScratch.prepare deepTree [] ⟨.here, ["r"]⟩ ⟨.top, deepScratch.workspace⟩
    let s := fresh repository ["r", "tmp"]
    let locked := s.prepare repository [] ⟨.here, ["r"]⟩ ⟨.top, s.workspace⟩ lockedSystem
    (deepScratch.Fails deepTree {} [longName] ∧
      entry? deep.1 (deepScratch.workspace ++ [longName]) = none) ∧
    (s.Fails repository lockedSystem ["sub", "main.c"] ∧
      entry? locked.1 (s.workspace ++ ["sub", "main.c"]) = none) ∧
    (fresh nested ["tmp"]).Fails nested { depth? := some 1 } ["a", "b"] := by
  have hlocked : ¬ Copying.canCopy
      ⟨["r"], ⟨.here, ["r"]⟩, ⟨.top, (fresh repository ["r", "tmp"]).workspace⟩⟩ lockedSystem
      ["sub", "main.c"] := by
    decide +kernel
  have hdeep : ¬ Copying.canCopy ⟨["r"], ⟨.here, ["r"]⟩, ⟨.top, deepScratch.workspace⟩⟩ {}
      [longName] :=
    fun h => not_isShort_longName (canCopy_iff.mp h).1
  exact ⟨⟨fails_longName, fails_longName.entry?_eq_none (by simp) hdeep⟩,
    ⟨fails_locked, fails_locked.entry?_eq_none (by simp) hlocked⟩, fails_nested⟩

end ContainerFlow.Scratch
