import PipeQuery.Entries
import PipeQuery.Number.Arithmetic

/-!
# Values

The data that flows through a query: `null`, booleans, numbers, texts, arrays,
and objects whose keys keep their order.

`Value.equals` is deep equality.  It looks at objects without regard to the order
of keys, and at numbers as numbers: the two zeros are equal, and `nan` equals
nothing, so that a value with `nan` inside does not equal itself.

`Value.compare` is the order of sorting.  Values of one kind compare by what they
hold, arrays and objects by their length; values of different kinds compare by
kind, `null` last.

`Value.Distinct` says that no object inside a value has a key twice, as every
value has that is built by reading or by writing keys.
-/

namespace PipeQuery

/-- A value. -/
inductive Value where
  /-- No value. -/
  | null
  /-- True or false. -/
  | boolean (b : Bool)
  /-- A number. -/
  | number (n : Number)
  /-- A text. -/
  | string (s : String)
  /-- Values in order. -/
  | array (items : List Value)
  /-- Keys with values, in the order of the keys. -/
  | object (entries : List (String × Value))

namespace Value

instance : Inhabited Value := ⟨.null⟩

/-- The name of the kind of a value, in messages. -/
def typeName : Value → String
  | .null => "null"
  | .boolean _ => "boolean"
  | .number _ => "number"
  | .string _ => "string"
  | .array _ => "array"
  | .object _ => "object"

/-- The number that counts something. -/
def ofCount (n : Nat) : Value := .number (.ofNat n)

/-- Whether the value is `null`. -/
def isNull : Value → Bool
  | .null => true
  | _ => false

/-- The number, if the value is one. -/
def asNumber? : Value → Option Number
  | .number n => some n
  | _ => none

/-- The text, if the value is one. -/
def asString? : Value → Option String
  | .string s => some s
  | _ => none

/-- The items, if the value is an array. -/
def asArray? : Value → Option (List Value)
  | .array items => some items
  | _ => none

/-- The entries, if the value is an object. -/
def asObject? : Value → Option (Entries Value)
  | .object entries => some entries
  | _ => none

/-- Whether the value is an array or an object. -/
def isContainer : Value → Bool
  | .array _ | .object _ => true
  | _ => false

mutual

/-- Deep equality. -/
def equals : Value → Value → Bool
  | .null, .null => true
  | .boolean a, .boolean b => a == b
  | .number a, .number b => a.equals b
  | .string a, .string b => a == b
  | .array xs, .array ys => equalsItems xs ys
  | .object xs, .object ys => xs.length == ys.length && equalsEntries xs ys
  | _, _ => false

/-- Deep equality of items at the same places. -/
def equalsItems : List Value → List Value → Bool
  | [], [] => true
  | x :: xs, y :: ys => equals x y && equalsItems xs ys
  | _, _ => false

/-- Whether each entry is deeply equal to what the other object holds under its key. -/
def equalsEntries : List (String × Value) → Entries Value → Bool
  | [], _ => true
  | (key, x) :: rest, others =>
    (match others.get? key with
      | some y => equals x y
      | none => false) && equalsEntries rest others

end

/-- The place of a kind in the order of kinds. -/
def rank : Value → Nat
  | .boolean _ => 0
  | .number _ => 1
  | .string _ => 2
  | .array _ => 3
  | .object _ => 4
  | .null => 5

/-- The order of sorting.  A number without a place on the line ties with every number. -/
def compare : Value → Value → Ordering
  | .number a, .number b => (a.compare? b).getD .eq
  | .string a, .string b => Ord.compare a b
  | .boolean a, .boolean b => Ord.compare a b
  | .array xs, .array ys => Ord.compare xs.length ys.length
  | .object xs, .object ys => Ord.compare xs.length ys.length
  | a, b => Ord.compare a.rank b.rank

mutual

/-- No object inside the value has a key twice. -/
def Distinct : Value → Prop
  | .array items => DistinctItems items
  | .object entries => (Entries.keys entries).Nodup ∧ DistinctEntries entries
  | _ => True

/-- No object inside the items has a key twice. -/
def DistinctItems : List Value → Prop
  | [] => True
  | x :: xs => Distinct x ∧ DistinctItems xs

/-- No object inside the held values has a key twice. -/
def DistinctEntries : List (String × Value) → Prop
  | [] => True
  | (_, x) :: rest => Distinct x ∧ DistinctEntries rest

end

end Value

end PipeQuery
