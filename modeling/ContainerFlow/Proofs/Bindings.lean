/-
ContainerFlow.Proofs.Bindings — what a list of entries binds.

`Bindings.ofList` binds the names of a list one after the other.  What
comes of that is said here without any order of events: every name of
the list stands at its first place and has its last text (`Gathers`),
and only one thing is like that (`gathers_iff`).

`Bindings.insertAll` binds names over those that are bound already:
which names there are then and in what order is `names_insertAll`, and
what they are bound to `get?_insertAll_of_mem` and its like.
-/
import Mathlib.Data.List.Induction
import Mathlib.Data.List.Nodup
import ContainerFlow.Bindings

namespace ContainerFlow.Bindings

/-- The bindings have the names of `entries`, each at its first place there and bound to its last
text there. -/
structure Gathers (b : Bindings) (entries : List (String × String)) : Prop where
  names : b.names = (entries.map Prod.fst).eraseDups
  texts : ∀ entry ∈ b.entries, entries.reverse.lookup entry.1 = some entry.2

/-- Binding a name leaves nothing else bound to it, and everything else as it is. -/
theorem eq_or_mem_of_mem_insertEntry {name text : String} {entries : List (String × String)}
    {entry : String × String} (hdistinct : (entries.map Prod.fst).Nodup)
    (h : entry ∈ insertEntry name text entries) :
    entry = (name, text) ∨ (entry ∈ entries ∧ entry.1 ≠ name) := by
  induction entries with
  | nil => exact .inl (List.mem_singleton.mp h)
  | cons first rest ih =>
    rw [List.map_cons, List.nodup_cons] at hdistinct
    by_cases hfirst : first.1 = name
    · rw [insertEntry, if_pos hfirst, List.mem_cons] at h
      rcases h with rfl | h
      · exact .inl rfl
      · refine .inr ⟨List.mem_cons_of_mem _ h, fun hname => hdistinct.1 ?_⟩
        rw [hfirst, ← hname]
        exact List.mem_map_of_mem h
    · rw [insertEntry, if_neg hfirst, List.mem_cons] at h
      rcases h with rfl | h
      · exact .inr ⟨List.mem_cons_self, hfirst⟩
      · rcases ih hdistinct.2 h with heq | ⟨hmem, hname⟩
        · exact .inl heq
        · exact .inr ⟨List.mem_cons_of_mem _ hmem, hname⟩

theorem ofList_concat (entries : List (String × String)) (name text : String) :
    ofList (entries ++ [(name, text)]) = (ofList entries).insert name text := by
  rw [ofList, insertAll, List.foldl_append]
  rfl

/-- A new last item counts only if it does not occur before. -/
theorem eraseDups_concat (names : List String) (name : String) :
    (names ++ [name]).eraseDups =
      if name ∈ names then names.eraseDups else names.eraseDups ++ [name] := by
  rw [List.eraseDups_append]
  by_cases h : name ∈ names <;> simp [List.removeAll, List.eraseDups_cons, h]

theorem gathers_ofList (entries : List (String × String)) : (ofList entries).Gathers entries := by
  -- From the end: the last entry is the one that is bound last.
  induction entries using List.reverseRecOn with
  | nil => exact ⟨rfl, by simp [ofList, insertAll, empty]⟩
  | append_singleton entries last ih =>
    obtain ⟨name, text⟩ := last
    rw [ofList_concat]
    constructor
    · rw [names_insert, ih.names, List.map_append, List.map_singleton, eraseDups_concat]
      simp only [List.mem_eraseDups]
    · intro entry hentry
      rw [List.reverse_concat, List.lookup_cons]
      rcases eq_or_mem_of_mem_insertEntry (ofList entries).distinct hentry with rfl | ⟨hmem, hname⟩
      · simp
      · rw [beq_false_of_ne hname]
        exact ih.texts entry hmem

theorem insertAll_cons (b : Bindings) (first : String × String)
    (rest : List (String × String)) :
    b.insertAll (first :: rest) = (b.insert first.1 first.2).insertAll rest := rfl

theorem mem_names_insertAll {b : Bindings} {entries : List (String × String)} {name : String} :
    name ∈ (b.insertAll entries).names ↔ name ∈ b.names ∨ name ∈ entries.map Prod.fst := by
  induction entries generalizing b with
  | nil => simp [insertAll]
  | cons entry rest ih =>
    rw [insertAll_cons, ih, names_insert]
    by_cases hbound : entry.1 ∈ b.names
    · simp only [if_pos hbound, List.map_cons, List.mem_cons]
      grind
    · simp [if_neg hbound, or_assoc]

/-- Nothing is bound that is not one of the entries. -/
theorem Gathers.subset {b : Bindings} {entries : List (String × String)} (h : b.Gathers entries) :
    b.entries ⊆ entries := by
  intro entry hentry
  obtain ⟨before, after, heq, -⟩ := List.lookup_eq_some_iff.mp (h.texts entry hentry)
  exact List.mem_reverse.mp (heq ▸ by simp)

/-- What bindings have gathered says all about them. -/
theorem Gathers.unique {b b' : Bindings} {entries : List (String × String)}
    (h : b.Gathers entries) (h' : b'.Gathers entries) : b = b' := by
  have hentries : ∀ {b : Bindings}, b.Gathers entries → b.entries =
      b.names.map fun name => (name, (entries.reverse.lookup name).getD "") := by
    intro b h
    calc b.entries = b.entries.map id := (List.map_id _).symm
      _ = b.entries.map fun entry => (entry.1, (entries.reverse.lookup entry.1).getD "") :=
        List.map_congr_left fun entry hentry => by rw [h.texts entry hentry]; rfl
      _ = _ := by
        rw [Bindings.names, List.map_map]
        rfl
  apply Bindings.ext
  rw [hentries h, hentries h', h.names, h'.names]

theorem gathers_iff {b : Bindings} {entries : List (String × String)} :
    b.Gathers entries ↔ b = ofList entries :=
  ⟨fun h => h.unique (gathers_ofList entries), fun h => h ▸ gathers_ofList entries⟩

/-! ## Binding over what is bound

Bound names keep their places and new ones come behind them, and of a name that is bound on both
sides the new text counts. -/

theorem get?_insertEntry (name text other : String) (entries : List (String × String)) :
    ((insertEntry name text entries).find? (·.1 == other)).map Prod.snd =
      if other = name then some text else (entries.find? (·.1 == other)).map Prod.snd := by
  induction entries with
  | nil =>
    by_cases hother : other = name
    · simp [insertEntry, hother]
    · simp [insertEntry, hother, Ne.symm hother]
  | cons first rest ih =>
    by_cases hfirst : first.1 = name
    · rw [insertEntry, if_pos hfirst]
      by_cases hother : other = name
      · simp [hother]
      · rw [if_neg hother, List.find?_cons_of_neg (by simpa using Ne.symm hother),
          List.find?_cons_of_neg (by simpa [hfirst] using Ne.symm hother)]
    · rw [insertEntry, if_neg hfirst]
      by_cases hother : first.1 = other
      · simp [hother, show other ≠ name from hother ▸ hfirst]
      · rw [List.find?_cons_of_neg (by simpa using hother),
          List.find?_cons_of_neg (by simpa using hother), ih]

theorem get?_insert (b : Bindings) (name text other : String) :
    (b.insert name text).get? other = if other = name then some text else b.get? other :=
  get?_insertEntry name text other b.entries

/-- What a name is bound to is what stands with it. -/
theorem get?_of_mem {b : Bindings} {entry : String × String} (h : entry ∈ b.entries) :
    b.get? entry.1 = some entry.2 := by
  cases hfound : b.entries.find? (·.1 == entry.1) with
  | none => exact absurd (beq_self_eq_true entry.1) (List.find?_eq_none.mp hfound entry h)
  | some found =>
    have hname : found.1 = entry.1 := by simpa using List.find?_some hfound
    have hsame : found = entry :=
      List.inj_on_of_nodup_map b.distinct (List.mem_of_find?_eq_some hfound) h hname
    rw [get?, hfound, hsame]
    rfl

variable {entries : List (String × String)}

/-- What is bound under no new name stays. -/
theorem get?_insertAll_of_notMem {b : Bindings} {name : String}
    (h : name ∉ entries.map Prod.fst) : (b.insertAll entries).get? name = b.get? name := by
  induction entries generalizing b with
  | nil => rfl
  | cons first rest ih =>
    rw [List.map_cons, List.mem_cons, not_or] at h
    rw [insertAll_cons, ih h.2, get?_insert, if_neg h.1]

/-- What is bound under a new name is the new text. -/
theorem get?_insertAll_of_mem (hentries : (entries.map Prod.fst).Nodup) {b : Bindings}
    {entry : String × String} (h : entry ∈ entries) :
    (b.insertAll entries).get? entry.1 = some entry.2 := by
  induction entries generalizing b with
  | nil => cases h
  | cons first rest ih =>
    obtain ⟨hfirst, hrest⟩ := List.nodup_cons.mp hentries
    rw [insertAll_cons]
    rcases List.mem_cons.mp h with rfl | h
    · rw [get?_insertAll_of_notMem hfirst, get?_insert, if_pos rfl]
    · exact ih hrest h

/-- Bound names keep their places, and the others come behind them. -/
theorem names_insertAll (hentries : (entries.map Prod.fst).Nodup) (b : Bindings) :
    (b.insertAll entries).names = b.names ++ (entries.map Prod.fst).filter (· ∉ b.names) := by
  induction entries generalizing b with
  | nil => simp [insertAll]
  | cons first rest ih =>
    obtain ⟨hfirst, hrest⟩ := List.nodup_cons.mp hentries
    rw [insertAll_cons, ih hrest, names_insert, List.map_cons]
    by_cases hbound : first.1 ∈ b.names
    · rw [if_pos hbound, List.filter_cons_of_neg (by simpa using hbound)]
    · rw [if_neg hbound, List.filter_cons_of_pos (by simpa using hbound), List.append_assoc]
      have hnew : (rest.map Prod.fst).filter (· ∉ b.names ++ [first.1])
          = (rest.map Prod.fst).filter (· ∉ b.names) := by
        refine List.filter_congr fun name hname => ?_
        have hne : name ≠ first.1 := fun heq => hfirst (heq ▸ hname)
        simp [hne]
      rw [hnew, List.singleton_append]

/-! ## Binding what is bound again -/

theorem insertEntry_of_notMem {name : String} (h : name ∉ entries.map Prod.fst) (text : String) :
    insertEntry name text entries = entries ++ [(name, text)] := by
  induction entries with
  | nil => rfl
  | cons first rest ih =>
    rw [List.map_cons, List.mem_cons, not_or] at h
    rw [insertEntry, if_neg (Ne.symm h.1), ih h.2, List.cons_append]

/-- Entries with different names are bound as they stand. -/
theorem entries_ofList (h : (entries.map Prod.fst).Nodup) : (ofList entries).entries = entries := by
  induction entries using List.reverseRecOn with
  | nil => rfl
  | append_singleton entries last ih =>
    rw [List.map_append, List.map_singleton] at h
    obtain ⟨hentries, -, hlast⟩ := List.nodup_append.mp h
    have hnew : last.1 ∉ entries.map Prod.fst := fun hmem => hlast _ hmem _ (by simp) rfl
    rw [ofList_concat]
    show insertEntry last.1 last.2 (ofList entries).entries = _
    rw [ih hentries, insertEntry_of_notMem hnew]

theorem ofList_entries (b : Bindings) : ofList b.entries = b :=
  Bindings.ext (entries_ofList b.distinct)

end ContainerFlow.Bindings
