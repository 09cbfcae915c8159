/-
ContainerFlow.Value.Projection — reading a value as what a key takes.

A key says which kinds of values it takes.  Some keys take a string in place of an array: as its one
item (`Value.singletonOrArray`), or as words with blanks between them (`Value.wordsOrArray`).  A
value of any other kind is a type mismatch, which names what the key takes and what it was given.
-/
import ContainerFlow.Fault
import ContainerFlow.Text.Words

namespace ContainerFlow.Value

/-- A value of a kind that was not asked for. -/
def mismatch (expected : String) (v : Value) (position : Option Position) : Fault :=
  .failure ⟨.typeMismatch expected v.kind.name, position⟩

/-- A string. -/
def asString (v : Value) (position : Option Position) : Except Fault String :=
  match v with
  | .string text => .ok text
  | v => .error (v.mismatch "string" position)

/-- An array. -/
def asArray (v : Value) (position : Option Position) : Except Fault (List String) :=
  match v with
  | .array items => .ok items
  | v => .error (v.mismatch "array" position)

/-- A map. -/
def asMap (v : Value) (position : Option Position) : Except Fault Bindings :=
  match v with
  | .map entries => .ok entries
  | v => .error (v.mismatch "map" position)

/-- An array, or a string that stands for an array with one item. -/
def singletonOrArray (v : Value) (position : Option Position) : Except Fault (List String) :=
  match v with
  | .string text => .ok [text]
  | .array items => .ok items
  | v => .error (v.mismatch "array or single string" position)

/-- An array, or a string that stands for the array of its words. -/
def wordsOrArray (v : Value) (position : Option Position) : Except Fault (List String) :=
  match v with
  | .string text => .ok (Text.words text)
  | .array items => .ok items
  | v => .error (v.mismatch "array or string with space-separated items" position)

/-! ## Values from elsewhere -/

/-- What is handed in where a value belongs: a value, or a bare scalar, which is none. -/
inductive Candidate where
  | value (v : Value)
  | scalar (s : Scalar)
  deriving DecidableEq, Repr

/-- The value that was handed in. -/
def Candidate.value? : Candidate → Except Fault Value
  | .value v => .ok v
  | .scalar s => .error (.defect (.notAValue s))

end ContainerFlow.Value
