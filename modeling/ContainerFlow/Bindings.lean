/-
ContainerFlow.Bindings — names bound to texts, in order.

An ordered dictionary from names to texts.  Binding a name that is already there replaces the text
and keeps the place; binding a new one adds it at the end.  No name is bound twice, which is part of
the type, so every reader may take the entries as they come.
-/

namespace ContainerFlow

/-- Names with their texts, in the order in which the names were first bound. -/
@[ext] structure Bindings where
  entries : List (String × String)
  distinct : (entries.map Prod.fst).Nodup
  deriving DecidableEq, Repr

namespace Bindings

/-- No names. -/
def empty : Bindings := ⟨[], List.nodup_nil⟩

/-- The bound names, in order. -/
def names (b : Bindings) : List String := b.entries.map Prod.fst

/-- The text that a name is bound to. -/
def get? (b : Bindings) (name : String) : Option String :=
  (b.entries.find? (·.1 == name)).map Prod.snd

/-- Entries with `name` bound to `text`: in its old place, or else at the end. -/
def insertEntry (name text : String) : List (String × String) → List (String × String)
  | [] => [(name, text)]
  | entry :: rest =>
    if entry.1 = name then (name, text) :: rest else entry :: insertEntry name text rest

theorem names_insertEntry (name text : String) (entries : List (String × String)) :
    (insertEntry name text entries).map Prod.fst =
      if name ∈ entries.map Prod.fst then entries.map Prod.fst
      else entries.map Prod.fst ++ [name] := by
  induction entries with
  | nil => simp [insertEntry]
  | cons entry rest ih =>
    by_cases h : entry.1 = name
    · simp [insertEntry, h]
    · rw [insertEntry, if_neg h, List.map_cons, ih]
      by_cases hr : name ∈ rest.map Prod.fst <;> simp [hr, Ne.symm h]

theorem nodup_insertEntry (name text : String) {entries : List (String × String)}
    (h : (entries.map Prod.fst).Nodup) :
    ((insertEntry name text entries).map Prod.fst).Nodup := by
  rw [names_insertEntry]
  split
  · exact h
  · next hn =>
    exact List.nodup_append.2 ⟨h, by simp, by simp only [List.mem_singleton]; grind⟩

/-- Binds `name` to `text`. -/
def insert (b : Bindings) (name text : String) : Bindings :=
  ⟨insertEntry name text b.entries, nodup_insertEntry name text b.distinct⟩

/-- Binds the names of `entries`, one after the other. -/
def insertAll (b : Bindings) (entries : List (String × String)) : Bindings :=
  entries.foldl (fun b entry => b.insert entry.1 entry.2) b

/-- The bindings that a list of entries makes: of a repeated name the first place and the last
text stay. -/
def ofList (entries : List (String × String)) : Bindings := empty.insertAll entries

theorem names_insert (b : Bindings) (name text : String) :
    (b.insert name text).names = if name ∈ b.names then b.names else b.names ++ [name] :=
  names_insertEntry name text b.entries

end Bindings

end ContainerFlow
