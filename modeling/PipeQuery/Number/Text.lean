import PipeQuery.Number.Arithmetic
import PipeQuery.Number.Digits

/-!
# Numbers as text

A `Layout` says how the shortest digits of a number are laid out: which powers
of ten are written with a point alone, and how an exponent is written.  Three
layouts are in use.

* `Layout.plain` never writes an exponent.
* `Layout.interchange` writes one outside `1e-5` to `1e15`, with a sign.
* `Layout.exact` writes one below `1e-4` and from `1e16` on.

`Number.chars` is the text of a number in results: a whole number below
`10 ^ 15` as an integer, so without a sign on zero, any other by `Layout.plain`.

`Number.read?` reads a decimal text.  The form is an optional sign, digits with
at most one point and at least one digit, and an optional exponent; the words
for the infinities and for `nan` are read as well.
-/

namespace PipeQuery

/-- How digits are laid out as text. -/
structure Layout where
  /-- The least power of ten of the leading digit that is written without an exponent. -/
  least : Option Int
  /-- The greatest such power. -/
  greatest : Option Int
  /-- What follows a whole number that is written without an exponent. -/
  wholeMark : List Char
  /-- What stands before an exponent that is not negative. -/
  plusSign : List Char
  /-- Which of two equally short and near numerals is written. -/
  tie : Tie

namespace Layout

/-- No exponents and no mark on whole numbers. -/
def plain : Layout := ⟨none, none, [], [], .up⟩

/-- The form of numbers in data interchange. -/
def interchange : Layout := ⟨some (-5), some 15, ['.', '0'], ['+'], .even⟩

/-- The form of numbers in messages about tokens. -/
def exact : Layout := ⟨some (-4), some 15, ['.', '0'], [], .up⟩

/-- Whether a number with this power of ten of its leading digit has no exponent. -/
def isPositional (layout : Layout) (power : Int) : Bool :=
  layout.least.all (decide <| · ≤ power) && layout.greatest.all (decide <| power ≤ ·)

end Layout

/-- The decimal digits of a natural number. -/
def decimalChars (n : Nat) : List Char := Nat.toDigits 10 n

/-- The decimal digits of an integer after its sign. -/
def integerChars (z : Int) : List Char :=
  if z < 0 then '-' :: decimalChars z.natAbs else decimalChars z.natAbs

namespace Digits

/-- The digits with a point at its place, filled up with zeros. -/
def positional (d : Digits) (wholeMark : List Char) : List Char :=
  let digits := decimalChars d.coefficient
  if 0 ≤ d.exponent then digits ++ List.replicate d.exponent.toNat '0' ++ wholeMark
  else
    let places := (-d.exponent).toNat
    if places < digits.length then
      digits.take (digits.length - places) ++ '.' :: digits.drop (digits.length - places)
    else '0' :: '.' :: List.replicate (places - digits.length) '0' ++ digits

/-- One digit, the others after a point, and the power of ten of the first. -/
def scientific (d : Digits) (power : Int) (plusSign : List Char) : List Char :=
  let mantissa := match decimalChars d.coefficient with
    | [] => []
    | [c] => [c]
    | c :: rest => c :: '.' :: rest
  let sign := if power < 0 then [] else plusSign
  mantissa ++ 'e' :: sign ++ integerChars power

/-- The digits in a layout. -/
def chars (layout : Layout) (d : Digits) : List Char :=
  let power := d.exponent + (decimalChars d.coefficient).length - 1
  if d.coefficient = 0 || layout.isPositional power then d.positional layout.wholeMark
  else d.scientific power layout.plusSign

end Digits

namespace Number

/-- The text of a number in a layout, with the sign of zero. -/
def charsIn (layout : Layout) : Number → List Char
  | .nan => ['N', 'a', 'N']
  | .infinite negative => if negative then ['-', 'i', 'n', 'f'] else ['i', 'n', 'f']
  | .finite negative m =>
    let text := (m.shortest layout.tie).chars layout
    if negative then '-' :: text else text

/-- The integer that a number is, if it is whole and below `10 ^ 15` in size. -/
def smallInteger? : Number → Option Int
  | .finite negative m =>
    if m.steps % stepsPerUnit = 0 ∧ m.steps < 10 ^ 15 * stepsPerUnit then
      let units : Int := (m.steps / stepsPerUnit : Nat)
      some (if negative then -units else units)
    else none
  | _ => none

/-- The text of a number in results. -/
def chars (n : Number) : List Char :=
  match n.smallInteger? with
  | some z => integerChars z
  | none => n.charsIn .plain

/-- The text of a number in results, as a string. -/
def text (n : Number) : String := String.ofList n.chars

end Number

/-! ## Reading -/

/-- The exponent part of a numeral: the mark, an optional sign and digits, and nothing else. -/
def readExponent? : List Char → Option Int
  | [] => some 0
  | mark :: rest =>
    if mark = 'e' ∨ mark = 'E' then
      let (negative, digits) := match rest with
        | '-' :: digits => (true, digits)
        | '+' :: digits => (false, digits)
        | digits => (false, digits)
      if digits.isEmpty ∨ !digits.all Char.isDigit then none
      else
        let size : Int := Nat.ofDigitChars 10 digits 0
        some (if negative then -size else size)
    else none

/-- A numeral without a sign. -/
def Digits.read? (cs : List Char) : Option Digits :=
  let whole := cs.takeWhile Char.isDigit
  let (fraction, rest) := match cs.dropWhile Char.isDigit with
    | '.' :: rest => (rest.takeWhile Char.isDigit, rest.dropWhile Char.isDigit)
    | rest => ([], rest)
  if whole.isEmpty && fraction.isEmpty then none
  else (readExponent? rest).map fun exponent =>
    ⟨Nat.ofDigitChars 10 (whole ++ fraction) 0, exponent - fraction.length⟩

/-- The words for numbers that no digits spell, in any mix of cases. -/
def Number.ofWord? (negative : Bool) (cs : List Char) : Option Number :=
  match String.ofList (cs.map Char.toLower) with
  | "inf" | "infinity" => some (.infinite negative)
  | "nan" => some .nan
  | _ => none

/-- A decimal text as the nearest number. -/
def Number.read? (cs : List Char) : Option Number :=
  let (negative, unsigned) := match cs with
    | '-' :: rest => (true, rest)
    | '+' :: rest => (false, rest)
    | rest => (false, rest)
  match Digits.read? unsigned with
  | some d => some (.ofDigits negative d)
  | none => Number.ofWord? negative unsigned

/-- A number is written with at least one digit. -/
theorem decimalChars_ne_nil (n : Nat) : decimalChars n ≠ [] :=
  Nat.toDigits_ne_nil

/-- Written digits are digits. -/
theorem isDigit_of_mem_decimalChars {n : Nat} {c : Char} (h : c ∈ decimalChars n) :
    c.isDigit = true :=
  Nat.isDigit_of_mem_toDigits (by decide) (by decide) h

/-- Written digits read back. -/
theorem ofDigitChars_decimalChars (n : Nat) : Nat.ofDigitChars 10 (decimalChars n) 0 = n :=
  Nat.ofDigitChars_ten_toDigits

end PipeQuery
