/-
ContainerFlow.Block — the blocks that a file consists of.

A workflow file is a list of blocks.  A block has a kind, a name in quotes, and between braces a
list of pairs of a key and a value.  Nothing is said here about which kinds, keys and values make
sense: that is the business of `ContainerFlow.Definition`.
-/
import ContainerFlow.Text.Position
import ContainerFlow.Value

namespace ContainerFlow

/-- A key, its value, and where the key stands. -/
structure Pair where
  key : String
  value : Value
  position : Position
  deriving DecidableEq, Repr

/-- A block, and where its kind stands.  The pairs keep the order of the file; a key may stand there
more than once. -/
structure Block where
  kind : String
  name : String
  position : Position
  pairs : List Pair
  deriving DecidableEq, Repr

namespace Block

/-- The kind of the blocks that say when to run and what for. -/
def workflowKind : String := "workflow"

/-- The kind of the blocks that say what to run. -/
def actionKind : String := "action"

/-- The first pair with a key. -/
def pair? (b : Block) (key : String) : Option Pair := b.pairs.find? (·.key == key)

end Block

end ContainerFlow
