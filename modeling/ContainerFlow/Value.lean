/-
ContainerFlow.Value — what a key may be set to.

What a key of a block may be set to: a quoted string, a bracketed array of strings, or a braced map
of names to strings.  The kind of a value is what messages call it.
-/
import ContainerFlow.Bindings

namespace ContainerFlow

/-- A value as it is written in a workflow file, the quotes of its strings taken off. -/
inductive Value where
  | string (text : String)
  | array (items : List String)
  | map (entries : Bindings)
  deriving DecidableEq, Repr

namespace Value

/-- The three kinds of values. -/
inductive Kind where
  | string
  | array
  | map
  deriving DecidableEq, Repr

/-- What messages call a kind. -/
def Kind.name : Kind → String
  | .string => "string"
  | .array => "array"
  | .map => "map"

/-- The kind of a value. -/
def kind : Value → Kind
  | .string _ => .string
  | .array _ => .array
  | .map _ => .map

/-- A bare scalar.  Workflow files have none, but a value that is handed in from elsewhere may turn
out to be one. -/
inductive Scalar where
  | none
  | boolean (b : Bool)
  | integer (n : Int)
  deriving DecidableEq, Repr

/-- A scalar as messages write it. -/
def Scalar.spelling : Scalar → String
  | .none => "None"
  | .boolean true => "True"
  | .boolean false => "False"
  | .integer n => toString n

end Value

end ContainerFlow
