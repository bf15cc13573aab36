import PipeQuery.Expr.Error
import PipeQuery.Operator.Apply
import PipeQuery.Regex.Match

/-!
# Functions of expressions

A function takes arguments that may have no value, and a pattern where one is
searched for.  Called without arguments it works on the context.  `Function.apply`
gives its value, none if there is none, or a fault.
-/

namespace PipeQuery

namespace Value

mutual

/-- A value as a condition: what is empty, zero, false or `null` fails, and an array holds if
one of its items does. -/
def holds : Value → Bool
  | .null => false
  | .boolean b => b
  | .number n => !n.equals .zero
  | .string s => !s.isEmpty
  | .array items => anyHolds items
  | .object entries => !entries.isEmpty

/-- Whether one of the items holds. -/
def anyHolds : List Value → Bool
  | [] => false
  | v :: rest => holds v || anyHolds rest

end

/-- The text of a value in expressions, where `null` has one. -/
def spelled (v : Value) : String := if v.isNull then "null" else v.text

end Value

namespace Expr

/-- A function. -/
inductive Function where
  | count
  | sum
  | max
  | min
  | average
  | string
  | number
  | length
  | uppercase
  | lowercase
  | trim
  | substring
  | contains
  | split
  | join
  | replace
  | keys
  | exists
  | not
  | boolean
  | distinct
  | reverse
deriving DecidableEq

namespace Function

/-- The function with a name. -/
def ofName? : String → Option Function
  | "count" => some .count
  | "sum" => some .sum
  | "max" => some .max
  | "min" => some .min
  | "average" => some .average
  | "string" => some .string
  | "number" => some .number
  | "length" => some .length
  | "uppercase" => some .uppercase
  | "lowercase" => some .lowercase
  | "trim" => some .trim
  | "substring" => some .substring
  | "contains" => some .contains
  | "split" => some .split
  | "join" => some .join
  | "replace" => some .replace
  | "keys" => some .keys
  | "exists" => some .exists
  | "not" => some .not
  | "boolean" => some .boolean
  | "distinct" => some .distinct
  | "reverse" => some .reverse
  | _ => none

/-- How many arguments a function takes at most. -/
def mostArguments : Function → Nat
  | .contains | .join => 2
  | .substring | .split => 3
  | .replace => 4
  | _ => 1

end Function

/-- An argument of a call. -/
inductive Argument where
  /-- A value, or none. -/
  | value (v : Option Value)
  /-- A pattern. -/
  | regex (r : Regex)

/-- The arguments of a call, and the context it stands in. -/
structure Arguments where
  /-- The arguments. -/
  values : List Argument
  /-- What stands for the argument of a call without any. -/
  context : Value

namespace Arguments

/-- The value of an argument, if it has one. -/
def value (args : Arguments) (i : Nat) : Except CallFault (Option Value) :=
  if i = 0 && args.values.isEmpty then .ok (some args.context)
  else match args.values[i]? with
    | none => .ok none
    | some (.value v) => .ok v
    | some (.regex _) => .error (.pattern (i + 1))

/-- The text of an argument, if it has a value. -/
def string (args : Arguments) (i : Nat) : Except CallFault (Option String) := do
  match ← args.value i with
  | none => return none
  | some (.string s) => return some s
  | some v => .error (.notString (i + 1) v.typeName)

/-- The number of an argument, if it has a value. -/
def number (args : Arguments) (i : Nat) : Except CallFault (Option Number) := do
  match ← args.value i with
  | none => return none
  | some (.number n) => return some n
  | some v => .error (.notNumber (i + 1) v.typeName)

/-- What an argument has to be. -/
def required {α : Type} (i : Nat) : Option α → Except CallFault α
  | some a => .ok a
  | none => .error (.required (i + 1))

/-- What an argument searches for. -/
inductive Sought where
  /-- A text. -/
  | text (s : List Char)
  /-- A pattern. -/
  | regex (r : Regex)

/-- What is searched for. -/
def sought (args : Arguments) (i : Nat) : Except CallFault Sought :=
  match args.values[i]? with
  | some (.regex r) => .ok (.regex r)
  | some (.value (some (.string s))) => .ok (.text s.toList)
  | _ => .error (.notSearchable (i + 1))

/-- The items of an argument: no value is no item, and a value that is no array is one. -/
def items (args : Arguments) (i : Nat) : Except CallFault (List Value) := do
  match ← args.value i with
  | none => return []
  | some (.array items) => return items
  | some v => return [v]

/-- The numbers that items are. -/
def numbersOf : List Value → Except CallFault (List Number)
  | [] => .ok []
  | .number n :: rest => (numbersOf rest).map (n :: ·)
  | v :: _ => .error (.amongNumbers v.typeName)

/-- The texts that items are. -/
def stringsOf : List Value → Except CallFault (List (List Char))
  | [] => .ok []
  | .string s :: rest => (stringsOf rest).map (s.toList :: ·)
  | v :: _ => .error (.amongStrings v.typeName)

/-- The numbers of an argument. -/
def numbers (args : Arguments) (i : Nat) : Except CallFault (List Number) := do
  numbersOf (← args.items i)

/-- A count that an argument gives. -/
def limit (args : Arguments) (i : Nat) : Except CallFault (Option Nat) := do
  match ← args.number i with
  | none => return none
  | some n =>
    if n.less .zero then .error .negativeLimit
    else return some (n.toNatUpTo (indexLimit - 1))

end Arguments

/-! ## What functions compute -/

/-- The number that a value stands for. -/
def numberOf : Value → Except CallFault Number
  | .number n => .ok n
  | .boolean b => .ok (if b then .ofNat 1 else .zero)
  | .string s =>
    match Number.read? (trimChars s.toList) with
    | some n => if n.isFinite then .ok n else .error (.spellsNoNumber s)
    | none => .error (.spellsNoNumber s)
  | v => .error (.noNumberFor v.typeName)

/-- Where a part of a text of `length` characters begins: below zero the count is from the
end, and no part begins outside the text. -/
def startOf (length : Nat) (n : Number) : Nat :=
  let start := n.floor.toIntWithin (-2 ^ 63) (2 ^ 63 - 1)
  if start < 0 then (length + start).toNat else min start.toNat length

/-- The characters from `start` on, as many as `count` says. -/
def partOf (cs : List Char) (start : Number) (count : Option Number) : List Char :=
  let behind := cs.drop (startOf cs.length start)
  match count with
  | none => behind
  | some n =>
    if n.less .zero || n.equals .zero then []
    else behind.take (n.floor.toNatUpTo (indexLimit - 1))

/-- The keys of the objects among the items, each once. -/
def keysOf (items : List Value) : List Value :=
  let keys := items.flatMap fun v => Entries.keys (v.asObject?.getD [])
  keys.eraseDups.map .string

/-- The texts as an array. -/
def arrayOf (texts : List (List Char)) : Value :=
  .array (texts.map fun cs => .string (String.ofList cs))

/-- What a search for a text or pattern finds. -/
def isFound (cs : List Char) : Arguments.Sought → Bool
  | .text t => occursIn t cs
  | .regex r => r.isMatch cs

/-- The parts of a text between what is searched for. -/
def partsOf (cs : List Char) : Arguments.Sought → List (List Char)
  | .text t => splitText t cs
  | .regex r => r.split cs

/-- The text with a replacement for what is searched for, or for the first so many of it. -/
def replaced (cs new : List Char) (limit : Option Nat) :
    Arguments.Sought → Except CallFault (List Char)
  | .text [] => .error .emptyPattern
  | .text (first :: more) => .ok (replaceIn first more new limit cs)
  | .regex r => .ok (r.replace cs new limit)

namespace Function

/-- What the function gives for its arguments, none if it has no value. -/
def apply (f : Function) (args : Arguments) : Except CallFault (Option Value) := do
  if f.mostArguments < args.values.length then
    .error (.tooMany f.mostArguments args.values.length)
  else match f with
    | .count => return some (.ofCount (← args.items 0).length)
    | .sum => return some (.number (sumNumbers (← args.numbers 0)))
    | .max => return (maxNumbers? (← args.numbers 0)).map .number
    | .min => return (minNumbers? (← args.numbers 0)).map .number
    | .average => return (meanNumbers? (← args.numbers 0)).map .number
    | .string => return (← args.value 0).map fun v => .string v.spelled
    | .number =>
      match ← args.value 0 with
      | none => return none
      | some v => return some (.number (← numberOf v))
    | .length => return (← args.string 0).map fun s => .ofCount s.length
    | .uppercase => return (← args.string 0).map fun s => .string (upperText s)
    | .lowercase => return (← args.string 0).map fun s => .string (lowerText s)
    | .trim =>
      return (← args.string 0).map fun s =>
        .string (String.ofList (joinWith [' '] (words s.toList)))
    | .substring =>
      match ← args.string 0 with
      | none => return none
      | some s =>
        let start ← Arguments.required 1 (← args.number 1)
        return some (.string (String.ofList (partOf s.toList start (← args.number 2))))
    | .contains =>
      match ← args.string 0 with
      | none => return none
      | some s => return some (.boolean (isFound s.toList (← args.sought 1)))
    | .split =>
      match ← args.string 0 with
      | none => return none
      | some s =>
        let parts := partsOf s.toList (← args.sought 1)
        match ← args.limit 2 with
        | none => return some (arrayOf parts)
        | some n => return some (arrayOf (parts.take n))
    | .join =>
      let separator := (← args.string 1).getD ""
      let texts ← Arguments.stringsOf (← args.items 0)
      return some (.string (String.ofList (joinWith separator.toList texts)))
    | .replace =>
      match ← args.string 0 with
      | none => return none
      | some s =>
        let new ← Arguments.required 2 (← args.string 2)
        let limit ← args.limit 3
        let text ← replaced s.toList new.toList limit (← args.sought 1)
        return some (.string (String.ofList text))
    | .keys =>
      let keys := keysOf (← args.items 0)
      return if keys.isEmpty then none else some (.array keys)
    | .exists => return some (.boolean (← args.value 0).isSome)
    | .not => return (← args.value 0).map fun v => .boolean !v.holds
    | .boolean => return (← args.value 0).map fun v => .boolean v.holds
    | .distinct =>
      return (← args.value 0).map fun
        | .array items => .array (Value.distinct items)
        | v => v
    | .reverse =>
      return (← args.value 0).map fun
        | .array items => .array items.reverse
        | v => v

end Function

end Expr

end PipeQuery
