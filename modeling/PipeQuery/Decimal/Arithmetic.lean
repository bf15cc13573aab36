import PipeQuery.Decimal.Basic

/-!
# Decimal arithmetic

Sums, differences and products are exact, then rounded half to even at the
largest scale at which the mantissa fits.  A quotient is developed digit by
digit, up to nine digits at a time, until it is exact or full.  A remainder is
exact.  An operation has no result if not even scale 0 can hold it.

`arithmetic` is what the language calls: the operation on the decimals of two
numbers, or on the numbers themselves where a decimal is missing.
-/

namespace PipeQuery

namespace Decimal

/-- `m` at scale `scale`, rounded half to even at the largest scale from `scale` downward at
which it fits. -/
def fit? (negative : Bool) (m : Nat) (scale : Nat) : Option Decimal :=
  go scale
where
  /-- Looks for a scale, starting at `s`. -/
  go : Nat → Option Decimal
    | 0 =>
      let rounded := roundHalfEven m (10 ^ scale)
      if rounded < mantissaLimit then some ⟨negative, rounded, 0⟩ else none
    | s + 1 =>
      let rounded := roundHalfEven m (10 ^ (scale - (s + 1)))
      if s + 1 ≤ maxScale ∧ rounded < mantissaLimit then some ⟨negative, rounded, s + 1⟩
      else go s

/-- The mantissa with its sign, brought to a larger scale. -/
def signedAt (d : Decimal) (scale : Nat) : Int :=
  let m : Int := (d.mantissa * 10 ^ (scale - d.scale) : Nat)
  if d.negative then -m else m

/-- The decimal with the other sign. -/
def neg (d : Decimal) : Decimal := { d with negative := !d.negative }

/-- The sum.  Adding zero leaves the other side as it is, with its scale. -/
def add? (a b : Decimal) : Option Decimal :=
  if a.mantissa = 0 then some b
  else if b.mantissa = 0 then some a
  else
    let scale := Nat.max a.scale b.scale
    let sum := a.signedAt scale + b.signedAt scale
    fit? (decide (sum < 0)) sum.natAbs scale

/-- The difference. -/
def sub? (a b : Decimal) : Option Decimal := add? a b.neg

/-- The product. -/
def mul? (a b : Decimal) : Option Decimal :=
  if a.mantissa = 0 ∨ b.mantissa = 0 then some ⟨false, 0, 0⟩
  else fit? (a.negative != b.negative) (a.mantissa * b.mantissa) (a.scale + b.scale)

/-- The largest `x ≤ bound` for which `q * 10 ^ x` is a mantissa. -/
def room (q : Nat) : Nat → Nat
  | 0 => 0
  | x + 1 => if q * 10 ^ (x + 1) < mantissaLimit then x + 1 else room q x

/-- A quotient under development. -/
structure Quotient where
  /-- The digits found so far. -/
  digits : Nat
  /-- The scale they stand at, which may still be negative. -/
  scale : Int
  /-- Whether there ever was a remainder. -/
  uneven : Bool

/-- Develops the quotient `q` with remainder `r` by the divisor `d` at scale `s`, in rounds of
up to nine digits. -/
def develop? (d : Nat) : Nat → Nat → Nat → Int → Bool → Option Quotient
  | 0, q, _, s, uneven => some ⟨q, s, uneven⟩
  | rounds + 1, q, r, s, uneven =>
    if r = 0 then
      if 0 ≤ s then some ⟨q, s, uneven⟩
      else
        let x := Nat.min 9 (-s).toNat
        if q * 10 ^ x < mantissaLimit then develop? d rounds (q * 10 ^ x) 0 (s + x) uneven
        else none
    else
      let x := room q (Nat.min 9 (maxScale - s).toNat)
      if x < 9 ∧ x + s < 0 then none
      else if x = 0 then
        let half := 2 * r
        let q := if d < half ∨ (half = d ∧ q % 2 = 1) then q + 1 else q
        some ⟨q, s, true⟩
      else develop? d rounds (q * 10 ^ x + r * 10 ^ x / d) (r * 10 ^ x % d) (s + x) true

/-- Drops eight zeros at a time, while the low 32 bits allow that there are eight. -/
def dropEights : Nat → Nat → Nat × Nat
  | 0, q => (q, 0)
  | scale + 1, q =>
    if q % 2 ^ 32 = 0 ∧ 8 ≤ scale + 1 ∧ q % 10 ^ 8 = 0 then dropEights (scale - 7) (q / 10 ^ 8)
    else (q, scale + 1)
termination_by scale => scale
decreasing_by exact Nat.lt_succ_of_le (Nat.sub_le _ _)

/-- Drops `count` zeros if there are as many. -/
def dropOnce (count : Nat) (q scale : Nat) : Nat × Nat :=
  if q % 2 ^ count = 0 ∧ count ≤ scale ∧ q % 10 ^ count = 0 then (q / 10 ^ count, scale - count)
  else (q, scale)

/-- Drops the zeros that the development of a quotient left. -/
def dropQuotientZeros (q scale : Nat) : Nat × Nat :=
  let (q, scale) := dropEights scale q
  let (q, scale) := dropOnce 4 q scale
  let (q, scale) := dropOnce 2 q scale
  dropOnce 1 q scale

/-- The quotient; none by zero. -/
def div? (a b : Decimal) : Option Decimal :=
  if b.mantissa = 0 then none
  else if a.mantissa = 0 then some ⟨false, 0, 0⟩
  else
    let negative := a.negative != b.negative
    let q := a.mantissa / b.mantissa
    let r := a.mantissa % b.mantissa
    (develop? b.mantissa 64 q r ((a.scale : Int) - b.scale) false).bind fun quotient =>
      if quotient.digits < mantissaLimit then
        let (q, scale) :=
          if quotient.uneven then dropQuotientZeros quotient.digits quotient.scale.toNat
          else (quotient.digits, quotient.scale.toNat)
        some ⟨negative, q, scale⟩
      else none

/-- The remainder of the quotient cut off toward zero, with the sign of the left side; none by
zero. -/
def rem? (a b : Decimal) : Option Decimal :=
  if b.mantissa = 0 then none
  else if a.mantissa = 0 then some ⟨false, 0, 0⟩
  else
    let scale := Nat.max a.scale b.scale
    let x := a.mantissa * 10 ^ (scale - a.scale)
    let y := b.mantissa * 10 ^ (scale - b.scale)
    if x = y then some ⟨false, 0, 0⟩
    else if x < y then some a
    else some ⟨a.negative, x % y, scale⟩

end Decimal

/-- The five arithmetic operations. -/
inductive Arithmetic where
  | add | sub | mul | div | rem
deriving DecidableEq

namespace Arithmetic

/-- The operation on decimals, where it has a result. -/
def onDecimals? : Arithmetic → Decimal → Decimal → Option Decimal
  | .add => Decimal.add?
  | .sub => Decimal.sub?
  | .mul => Decimal.mul?
  | .div => Decimal.div?
  | .rem => Decimal.rem?

/-- The operation on numbers. -/
def onNumbers : Arithmetic → Number → Number → Number
  | .add => Number.add
  | .sub => Number.sub
  | .mul => Number.mul
  | .div => Number.div
  | .rem => Number.rem

/-- The operation through decimals, or on the numbers where decimals have no result. -/
def apply (op : Arithmetic) (a b : Number) : Number :=
  let viaDecimals := do
    let x ← Decimal.ofNumber? a
    let y ← Decimal.ofNumber? b
    op.onDecimals? x y
  match viaDecimals with
  | some d => d.toNumber
  | none => op.onNumbers a b

end Arithmetic

end PipeQuery
