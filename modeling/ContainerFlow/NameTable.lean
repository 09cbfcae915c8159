/-
ContainerFlow.NameTable — numbers for names.

A name table numbers names from zero in the order in which they are first fed to it.  The number of
a name is its place in the list of names, so there are no gaps, no number is shared, and none ever
changes.
-/

namespace ContainerFlow

/-- Names, each at the place that is its number. -/
@[ext] structure NameTable where
  names : List String
  distinct : names.Nodup
  deriving DecidableEq, Repr

namespace NameTable

/-- The table without names. -/
def empty : NameTable := ⟨[], List.nodup_nil⟩

/-- How many names have numbers. -/
def size (t : NameTable) : Nat := t.names.length

/-- The number of a name. -/
def get? (t : NameTable) (name : String) : Option Nat := t.names.idxOf? name

/-- The table with one more name, which is new. -/
def push (t : NameTable) (name : String) (h : name ∉ t.names) : NameTable :=
  ⟨t.names ++ [name], by
    refine List.nodup_append.2 ⟨t.distinct, by simp, ?_⟩
    rintro a ha b hb rfl
    exact h (List.mem_singleton.1 hb ▸ ha)⟩

/-- What feeding a name does. -/
structure Fed where
  /-- Whether the name was new. -/
  inserted : Bool
  /-- The number of the name, now or since it was first fed. -/
  id : Nat
  /-- The table afterwards. -/
  table : NameTable
  deriving DecidableEq, Repr

/-- Numbers a name, unless it has a number. -/
def feed (t : NameTable) (name : String) : Fed :=
  match h : t.get? name with
  | some id => ⟨false, id, t⟩
  | none => ⟨true, t.size, t.push name (by simpa [get?] using h)⟩

end NameTable

end ContainerFlow
