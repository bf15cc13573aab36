import PipeQuery.Number.Arithmetic
import PipeQuery.Regex.Match

/-!
# Expression trees

A tree is made of nodes; the steps of a path are nodes with predicates behind
them.  Nodes that can fail carry the position of what they come from.

Field names and wildcards stand in steps only: `Node.path` makes of a single step
the node itself if nothing is lost by it, and never of a field name.
-/

namespace PipeQuery.Expr

/-- An operator between two operands. -/
inductive BinaryOp where
  | add
  | subtract
  | multiply
  | divide
  | modulo
  | concat
  | equal
  | notEqual
  | less
  | lessEqual
  | greater
  | greaterEqual
  | member
  | both
  | oneOf
deriving DecidableEq

mutual

/-- A node of a tree. -/
inductive Node where
  /-- A number. -/
  | number (n : Number)
  /-- A text. -/
  | string (s : String)
  /-- A truth value. -/
  | boolean (b : Bool)
  /-- No value, as a value. -/
  | null
  /-- A pattern. -/
  | regex (r : Regex)
  /-- A field of the context. -/
  | name (field : String)
  /-- All fields of the context. -/
  | wildcard
  /-- The context. -/
  | context
  /-- The input of the whole expression. -/
  | root
  /-- Steps, each from what the one before it led to. -/
  | path (steps : List Step)
  /-- An array of items. -/
  | array (items : List Node)
  /-- An object of keys and values. -/
  | object (pairs : List (Node × Node))
  /-- A number with its sign turned. -/
  | negate (operand : Node) (position : Nat)
  /-- An operator with its operands. -/
  | binary (op : BinaryOp) (left right : Node) (position : Nat)
  /-- One of two nodes by a condition; the second may be missing. -/
  | condition (test yes : Node) (no : Option Node)
  /-- A call of a function. -/
  | call (function : String) (arguments : List Node) (position : Nat)

/-- A step of a path. -/
inductive Step where
  /-- Where the step leads, what it keeps of that, and whether the result is to be an array in
  any case. -/
  | mk (node : Node) (predicates : List Node) (keepArray : Bool)

end

namespace Node

/-- Whether the node selects fields, which makes sense in a step only. -/
def isSelector : Node → Bool
  | .name _ | .wildcard => true
  | _ => false

/-- The node with its sign turned; a number is turned at once. -/
def negated (operand : Node) (position : Nat) : Node :=
  match operand with
  | .number n => .number n.neg
  | node => .negate node position

/-- The path of one step and more; a step alone is its node if it has no predicates and selects
no fields. -/
def ofSteps : Step → List Step → Node
  | .mk node [] false, [] => if node.isSelector then .path [.mk node [] false] else node
  | first, rest => .path (first :: rest)

end Node

end PipeQuery.Expr
