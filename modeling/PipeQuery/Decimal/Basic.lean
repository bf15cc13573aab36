import PipeQuery.Number.Arithmetic

/-!
# Decimals

A decimal is a sign, a mantissa below `2 ^ 96` and a scale of at most 28: the
value `mantissa / 10 ^ scale`.  Arithmetic goes through decimals so that sums
and products of numbers with a few decimal places come out as written.

`ofNumber?` walks from the binary form to a decimal one.  A binary exponent is
traded step by step for a decimal exponent, by halving where the mantissa is
even and by multiplying with five elsewhere.  Then the decimal exponent is
brought into the range of a scale, digits beyond 52 bits are rounded off, and
zeros at the end are dropped.  Each walk recurses on the exponent it uses up.
`toNumber` goes back; its fractional branch rounds at the scale once more.
-/

namespace PipeQuery

/-- A decimal number: `± mantissa / 10 ^ scale`. -/
structure Decimal where
  /-- Whether the sign is a minus. -/
  negative : Bool
  /-- The digits. -/
  mantissa : Nat
  /-- How many of the digits are behind the point. -/
  scale : Nat
deriving DecidableEq

namespace Decimal

/-- The first mantissa that is too large. -/
def mantissaLimit : Nat := 2 ^ 96

/-- The greatest scale. -/
def maxScale : Nat := 28

/-- The 53-bit mantissa of a magnitude and its power of two; fewer bits near zero. -/
def binaryParts (m : Magnitude) : Nat × Int :=
  let shift := m.steps.log2 - 52
  (m.steps / 2 ^ shift, (shift : Int) - 1074)

/-- Trades `count` negative powers of two for powers of ten. -/
def tradeHalves : Nat → Nat → Int → Nat × Int
  | 0, m, tens => (m, tens)
  | count + 1, m, tens =>
    if m % 2 = 0 then tradeHalves count (m / 2) (tens + 1)
    else if 5 * m < mantissaLimit then tradeHalves count (5 * m) tens
    else tradeHalves count (m / 2) (tens + 1)

/-- Trades `count` powers of two for powers of ten; none if the mantissa cannot hold them. -/
def tradeDoubles : Nat → Nat → Int → Option (Nat × Int)
  | 0, m, tens => some (m, tens)
  | count + 1, m, tens =>
    if m < 2 ^ 95 then tradeDoubles count (2 * m) (tens - 1)
    else if 2 * tens > (count + 1 : Nat) then none
    else tradeDoubles count (m / 5) tens

/-- Writes `count` powers of ten into the mantissa, if it can hold them. -/
def absorbTens : Nat → Nat → Option Nat
  | 0, m => some m
  | count + 1, m => if 10 * m < mantissaLimit then absorbTens count (10 * m) else none

/-- Rounds off up to `count` digits at a scale of `maxScale + count`; a mantissa that gets to
zero is zero at scale 0. -/
def roundToRange : Nat → Nat → Nat × Nat
  | 0, m => (m, maxScale)
  | count + 1, m =>
    if m / 10 = 0 then (0, 0)
    else roundToRange count (if m % 10 ≥ 5 then m / 10 + 1 else m / 10)

/-- Rounds off digits behind the point until the mantissa has 52 bits. -/
def roundToBits : Nat → Nat → Nat × Nat
  | 0, m => (m, 0)
  | scale + 1, m =>
    if m ≥ 2 ^ 52 then roundToBits scale (if m % 10 ≥ 5 then m / 10 + 1 else m / 10)
    else (m, scale + 1)

/-- Drops zeros behind the point. -/
def dropZeros : Nat → Nat → Nat × Nat
  | 0, m => (m, 0)
  | scale + 1, m => if m % 10 = 0 then dropZeros scale (m / 10) else (m, scale + 1)

/-- The mantissa and scale of `m * 10 ^ tens`, rounded into range. -/
def ofScientific? (m : Nat) (tens : Int) : Option (Nat × Nat) :=
  if 0 < tens then (absorbTens tens.toNat m).map (·, 0)
  else
    let places := (-tens).toNat
    let (m, scale) := if maxScale < places then roundToRange (places - maxScale) m else (m, places)
    let (m, scale) := roundToBits scale m
    some (dropZeros scale m)

/-- The decimal of a number; the infinities, `nan` and numbers out of range have none. -/
def ofNumber? : Number → Option Decimal
  | .finite negative magnitude =>
    if magnitude.steps = 0 then some ⟨negative, 0, 0⟩
    else
      let (m, twos) := binaryParts magnitude
      let traded :=
        if twos < 0 then some (tradeHalves (-twos).toNat m twos)
        else tradeDoubles twos.toNat m twos
      traded.bind fun (m, tens) =>
        (ofScientific? m tens).map fun (m, scale) => ⟨negative, m, scale⟩
  | _ => none

/-- The number of a decimal.

Without a fraction it is the nearest number.  Else the two parts are converted and added, and
the sum is rounded at the scale. -/
def toNumber (d : Decimal) : Number :=
  let signed (n : Number) := if d.negative then n.neg else n
  if d.scale = 0 then
    if d.mantissa = 0 then .zero else signed (.ofNat d.mantissa)
  else
    let power := 10 ^ d.scale
    let whole := Number.ofNat (d.mantissa / power)
    let fraction := (Number.ofNat (d.mantissa % power)).div (.ofNat power)
    if fraction.equals .zero then signed whole
    else
      let unit := (Number.ofNat 10).powNat d.scale
      signed (((whole.add fraction).mul unit).roundAway.div unit)

end Decimal

end PipeQuery
