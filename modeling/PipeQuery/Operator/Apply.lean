import PipeQuery.Decimal.Arithmetic
import PipeQuery.Operator.Basic
import PipeQuery.Sorting
import PipeQuery.Text.Case
import PipeQuery.Text.Trim
import PipeQuery.Value.Index

/-!
# What operators compute

`Operator.eval?` is an operator on the kind of value it works on; on any other
value it has no result.  `Operator.applyTo` is the operator as a stage: where it
has no result the value passes through unchanged.  `Operator.apply` is a call:
operators on arrays take a single array argument as it is, several arguments as
an array, and without arguments the array that the call stands in.

Aggregates of numbers look past `null` and have no result on an array with
anything else in it.

What `random` draws is a parameter, `Draws`.
-/

namespace PipeQuery

/-- The sum of numbers, added up from the left. -/
def sumNumbers (numbers : List Number) : Number :=
  numbers.foldl (fun total n => Arithmetic.add.apply total n) .zero

/-- The mean of numbers; none without numbers. -/
def meanNumbers? (numbers : List Number) : Option Number :=
  if numbers.isEmpty then none
  else some (Arithmetic.div.apply (sumNumbers numbers) (.ofNat numbers.length))

/-- The smallest of numbers; none without numbers. -/
def minNumbers? : List Number → Option Number
  | [] => none
  | n :: rest => some (rest.foldl Number.min n)

/-- The largest of numbers; none without numbers. -/
def maxNumbers? : List Number → Option Number
  | [] => none
  | n :: rest => some (rest.foldl Number.max n)

namespace Value

/-- A number, or `null` where there is none. -/
def ofNumber? : Option Number → Value
  | some n => .number n
  | none => .null

/-- The numbers among the items, looking past `null`; none if there is anything else. -/
def numbers? : List Value → Option (List Number)
  | [] => some []
  | .number n :: rest => (numbers? rest).map (n :: ·)
  | .null :: rest => numbers? rest
  | _ :: _ => none

theorem numbers?_map (ns : List Number) : numbers? (ns.map .number) = some ns := by
  induction ns with
  | nil => rfl
  | cons n ns ih =>
    rw [List.map_cons, numbers?, ih]
    rfl

/-- The texts of strings, numbers and booleans put together; none if there is anything else. -/
def concat? : List Value → Option String
  | [] => some ""
  | item :: rest =>
    match item with
    | .string _ | .number _ | .boolean _ => (concat? rest).map (item.text ++ ·)
    | _ => none

/-- Whether all items are numbers. -/
def allNumbers (items : List Value) : Bool := items.all fun v => v.asNumber?.isSome

/-- Whether all items are strings. -/
def allStrings (items : List Value) : Bool := items.all fun v => v.asString?.isSome

/-- The greatest item where all are numbers or all are strings, of equal ones the last; else
the last item. -/
def latest? (items : List Value) : Option Value :=
  if allNumbers items || allStrings items then
    (sortStable (fun a b => a.compare b == .lt) items).getLast?
  else items.getLast?

end Value

/-- What `random` draws.  The draws come from outside of the program, and only their range is
known.  One number stands for all that is drawn in a run. -/
class Draws where
  /-- The number drawn. -/
  number : Number
  /-- It is not less than 0. -/
  not_less_zero : number.less .zero = false
  /-- It is less than 1. -/
  less_one : number.less (.ofNat 1) = true

/-- Where no draws are given, each is a half. -/
instance (priority := low) Draws.half : Draws where
  number := .ofQuotient false stepsPerUnit 2
  not_less_zero := by decide +kernel
  less_one := by decide +kernel

namespace Operator

variable [Draws]

/-- The result on a value of the right kind. -/
def eval? : Operator → Value → Option Value
  | .count, .array items => some (.ofCount items.length)
  | .count, .string s => some (.ofCount s.length)
  | .sum, .array items => (Value.numbers? items).map fun ns => .number (sumNumbers ns)
  | .mean, .array items => (Value.numbers? items).map fun ns => .ofNumber? (meanNumbers? ns)
  | .min, .array items => (Value.numbers? items).map fun ns => .ofNumber? (minNumbers? ns)
  | .max, .array items => (Value.numbers? items).map fun ns => .ofNumber? (maxNumbers? ns)
  | .diff, .array [.number a, .number b] => some (.number (Arithmetic.sub.apply a b))
  | .mul, .array [.number a, .number b] => some (.number (Arithmetic.mul.apply a b))
  | .first, .array items => items.head?
  | .last, .array items => items.getLast?
  | .latest, .array items => Value.latest? items
  | .strcat, .array items => (Value.concat? items).map .string
  | .dcount, .array items => some (.ofCount (Value.distinct items).length)
  | .distinct, .array items => some (.array (Value.distinct items))
  | .random, _ => some (.number Draws.number)
  | .toUpper, .string s => some (.string (upperText s))
  | .toLower, .string s => some (.string (lowerText s))
  | .strlen, .string s => some (.ofCount s.length)
  | .trim, .string s => some (.string (String.ofList (trimChars s.toList)))
  | .trimStart, .string s => some (.string (String.ofList (trimStartChars s.toList)))
  | .trimEnd, .string s => some (.string (String.ofList (trimEndChars s.toList)))
  | _, _ => none

/-- The operator on a value, which passes through where the operator has no result. -/
def applyTo (op : Operator) (v : Value) : Value := (op.eval? v).getD v

/-- What a call with these arguments works on, `context` being the array it stands in. -/
def input (op : Operator) (args : List Value) (context : Option Value) : Value :=
  match op.shape with
  | .nothing => .null
  | .string => args.head?.getD .null
  | .array =>
    match args with
    | [] => context.getD (.array [])
    | [.array items] => .array items
    | [.string s] => if op = .count then .string s else .array [.string s]
    | many => .array many

/-- A call of the operator. -/
def apply (op : Operator) (args : List Value) (context : Option Value) : Value :=
  op.applyTo (op.input args context)

end Operator

end PipeQuery
