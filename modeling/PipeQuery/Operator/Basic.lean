/-!
# Operators

The registry of operators: their names, how many arguments each takes, and what
kind of input it works on.
-/

namespace PipeQuery

/-- An operator of the registry. -/
inductive Operator where
  | count
  | sum
  | diff
  | mul
  | min
  | max
  | mean
  | first
  | last
  | latest
  | strcat
  | dcount
  | distinct
  | random
  | toUpper
  | toLower
  | strlen
  | trim
  | trimStart
  | trimEnd
deriving DecidableEq

/-- How many arguments an operator takes. -/
inductive Arity where
  /-- None. -/
  | zero
  /-- Exactly one. -/
  | unary
  /-- One or two. -/
  | binary
  /-- Any number. -/
  | variadic
deriving DecidableEq

/-- What an operator works on. -/
inductive Shape where
  /-- Nothing: it ignores its input. -/
  | nothing
  /-- An array. -/
  | array
  /-- A text. -/
  | string
deriving DecidableEq

namespace Arity

/-- Whether a call may have this many arguments. -/
def allows : Arity → Nat → Bool
  | .zero, n => n == 0
  | .unary, n => n == 1
  | .binary, n => n == 1 || n == 2
  | .variadic, _ => true

/-- The number of arguments in words. -/
def words : Arity → String
  | .zero => "no"
  | .unary => "exactly one"
  | .binary => "one or two"
  | .variadic => "any number of"

end Arity

namespace Operator

/-- Every operator, in the order of listings. -/
def all : List Operator :=
  [.count, .sum, .diff, .mul, .min, .max, .mean, .first, .last, .latest, .strcat, .dcount,
   .distinct, .random, .toUpper, .toLower, .strlen, .trim, .trimStart, .trimEnd]

/-- The name of an operator in queries. -/
def name : Operator → String
  | .count => "count"
  | .sum => "sum"
  | .diff => "diff"
  | .mul => "mul"
  | .min => "min"
  | .max => "max"
  | .mean => "mean"
  | .first => "first"
  | .last => "last"
  | .latest => "latest"
  | .strcat => "strcat"
  | .dcount => "dcount"
  | .distinct => "distinct"
  | .random => "random"
  | .toUpper => "toupper"
  | .toLower => "tolower"
  | .strlen => "strlen"
  | .trim => "trim"
  | .trimStart => "trim_start"
  | .trimEnd => "trim_end"

/-- The operator with a name. -/
def ofName? (name : String) : Option Operator := all.find? (·.name == name)

/-- How many arguments an operator takes. -/
def arity : Operator → Arity
  | .random => .zero
  | .diff | .mul => .binary
  | .toUpper | .toLower | .strlen | .trim | .trimStart | .trimEnd => .unary
  | _ => .variadic

/-- What an operator works on. -/
def shape (op : Operator) : Shape :=
  match op.arity with
  | .zero => .nothing
  | .unary => .string
  | .binary | .variadic => .array

/-- What an operator does, in a line. -/
def description : Operator → String
  | .count => "number of elements of an array, or characters of a string"
  | .sum => "sum of numbers (0 when empty)"
  | .diff => "a - b for exactly two numbers"
  | .mul => "a * b for exactly two numbers"
  | .min => "smallest number (null when empty)"
  | .max => "largest number (null when empty)"
  | .mean => "arithmetic mean (null when empty)"
  | .first => "first element"
  | .last => "last element"
  | .latest => "greatest element when all are numbers or all strings, else the last"
  | .strcat => "concatenation without separator"
  | .dcount => "number of distinct elements"
  | .distinct => "distinct elements in order of first occurrence"
  | .random => "random number in [0, 1)"
  | .toUpper => "uppercase string"
  | .toLower => "lowercase string"
  | .strlen => "number of characters"
  | .trim => "string without surrounding whitespace"
  | .trimStart => "string without leading whitespace"
  | .trimEnd => "string without trailing whitespace"

/-- An operator is found under its name. -/
theorem ofName?_name (op : Operator) : ofName? op.name = some op := by
  cases op <;> decide

/-- An operator is found under no other name. -/
theorem name_of_ofName? {name : String} {op : Operator} (h : ofName? name = some op) :
    op.name = name := by
  have hname := List.find?_some h
  simpa using hname

end Operator

end PipeQuery
