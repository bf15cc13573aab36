import PipeQuery.Number.Text
import PipeQuery.Text.Radix
import PipeQuery.Value.Basic

/-!
# What plain scalars spell

A plain text may spell null, a boolean or a number; any other text stands for itself.  A tag
of the language asks for one of these and takes nothing else.
-/

namespace PipeQuery.Yaml

/-- Whether a text spells null. -/
def isNull (text : String) : Bool := ["null", "Null", "NULL", "~"].contains text

/-- The boolean that a text spells. -/
def boolean? (text : String) : Option Bool :=
  if ["true", "True", "TRUE"].contains text then some true
  else if ["false", "False", "FALSE"].contains text then some false
  else none

/-- Whether digits begin with a zero that adds nothing. -/
def hasIdleZero (digits : List Char) : Bool :=
  digits.head? = some '0' && 1 < digits.length && digits.all Char.isDigit

/-- The natural number that a text spells: in hexadecimal, octal or binary behind a mark, or in
decimal without idle zeros. -/
def natural? (cs : List Char) : Option Nat :=
  match cs with
  | '0' :: 'x' :: digits => numberIn? 16 digits
  | '0' :: 'o' :: digits => numberIn? 8 digits
  | '0' :: 'b' :: digits => numberIn? 2 digits
  | digits => if hasIdleZero digits then none else numberIn? 10 digits

/-- A text without the sign in front, and whether that is a minus. -/
def splitSign : List Char → Bool × List Char
  | '-' :: rest => (true, rest)
  | '+' :: rest => (false, rest)
  | cs => (false, cs)

/-- The integer that a text spells. -/
def integer? (cs : List Char) : Option Int :=
  let (isNegative, digits) := splitSign cs
  (natural? digits).map fun n => if isNegative then -(n : Int) else n

/-- The number that a text spells with a point or an exponent.  Infinities and what is no
number are null. -/
def fraction? (cs : List Char) : Option Value :=
  let (isNegative, unsigned) := splitSign cs
  if [".inf", ".Inf", ".INF"].contains (String.ofList unsigned) then some .null
  else if [".nan", ".NaN", ".NAN"].contains (String.ofList cs) then some .null
  else
    (Digits.read? unsigned).bind fun d =>
      let n := Number.ofDigits isNegative d
      if n.isFinite then some (.number n) else none

/-- What becomes of an integer. -/
inductive Size where
  /-- Integers of 64 bits are taken. -/
  | taken
  /-- Integers of 128 bits are refused. -/
  | refused
  /-- Others are no integers. -/
  | beyond

/-- The size of an integer: without a sign one bit more is there for it. -/
def Size.of (z : Int) : Size :=
  if -2 ^ 63 ≤ z ∧ z < 2 ^ 64 then .taken
  else if -2 ^ 127 ≤ z ∧ z < 2 ^ 128 then .refused
  else .beyond

/-- What a plain text without a tag stands for, which is nothing for an integer that is
refused. -/
def plainValue? (cs : List Char) : Option Value :=
  let text := String.ofList cs
  let other :=
    if hasIdleZero (splitSign cs).2 then .string text else (fraction? cs).getD (.string text)
  if cs.isEmpty || isNull text then some .null
  else match boolean? text with
    | some b => some (.boolean b)
    | none =>
      match integer? cs with
      | none => some other
      | some z =>
        match Size.of z with
        | .taken => some (.number (.ofInt z))
        | .refused => none
        | .beyond => some other

/-- What a text with a tag of the language stands for. -/
def taggedValue? (kind : String) (cs : List Char) : Option Value :=
  let text := String.ofList cs
  match kind with
  | "bool" => (boolean? text).map .boolean
  | "int" => (integer? cs).bind fun z =>
      if Size.of z matches .taken then some (.number (.ofInt z)) else none
  | "float" => fraction? cs
  | "null" => if isNull text then some .null else none
  | _ => some (.string text)

end PipeQuery.Yaml
