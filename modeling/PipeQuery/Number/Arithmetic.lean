import PipeQuery.Number.Basic

/-!
# Arithmetic on numbers

Each operation computes the exact result in steps and rounds it once.  The
infinities and `nan` follow the usual rules: an operation without a limit value
gives `nan`, and so does every operation on `nan`.

`floor`, `roundAway` and the two conversions to integers take a number off the
binary grid.  `toNatUpTo` and `toIntWithin` clamp instead of failing.
-/

namespace PipeQuery

namespace Number

/-- The opposite number. -/
def neg : Number → Number
  | .nan => .nan
  | .infinite negative => .infinite (!negative)
  | .finite negative m => .finite (!negative) m

/-- The sum.  A sum of zero steps is negative only when both sides are. -/
def add : Number → Number → Number
  | .nan, _ | _, .nan => .nan
  | .infinite s, .infinite t => if s = t then .infinite s else .nan
  | .infinite s, .finite _ _ => .infinite s
  | .finite _ _, .infinite t => .infinite t
  | .finite s a, .finite t b =>
    let sum := a.signed s + b.signed t
    if sum = 0 then .finite (s && t) .zero else ofSteps sum

/-- The difference. -/
def sub (a b : Number) : Number := a.add b.neg

/-- The product. -/
def mul : Number → Number → Number
  | .nan, _ | _, .nan => .nan
  | .infinite s, .infinite t => .infinite (s != t)
  | .infinite s, .finite t b => if b.steps = 0 then .nan else .infinite (s != t)
  | .finite s a, .infinite t => if a.steps = 0 then .nan else .infinite (s != t)
  | .finite s a, .finite t b => ofQuotient (s != t) (a.steps * b.steps) stepsPerUnit

/-- The quotient. -/
def div : Number → Number → Number
  | .nan, _ | _, .nan => .nan
  | .infinite _, .infinite _ => .nan
  | .infinite s, .finite t _ => .infinite (s != t)
  | .finite s _, .infinite t => .finite (s != t) .zero
  | .finite s a, .finite t b =>
    if b.steps = 0 then
      if a.steps = 0 then .nan else .infinite (s != t)
    else ofQuotient (s != t) (a.steps * stepsPerUnit) b.steps

/-- The remainder of the quotient cut off toward zero, with the sign of the left side. -/
def rem : Number → Number → Number
  | .nan, _ | _, .nan => .nan
  | .infinite _, _ => .nan
  | .finite s a, .infinite _ => .finite s a
  | .finite s a, .finite _ b =>
    if b.steps = 0 then .nan else ofQuotient s (a.steps % b.steps) 1

/-- `base` to the power `n`, by repeated squaring: every square and product is rounded. -/
def powNat (base : Number) (n : Nat) : Number :=
  go (n + 1) (ofNat 1) base n
where
  /-- `acc` times `square` to the power `n`, for `n` below `2 ^ fuel`. -/
  go : Nat → Number → Number → Nat → Number
    | 0, acc, _, _ => acc
    | fuel + 1, acc, square, n =>
      if n = 0 then acc
      else
        let acc := if n % 2 = 1 then acc.mul square else acc
        go fuel acc (square.mul square) (n / 2)

/-- The smaller of two numbers, the other one if a side is `nan`. -/
def min (a b : Number) : Number :=
  if a = .nan then b else if b = .nan then a else if b.less a then b else a

/-- The larger of two numbers, the other one if a side is `nan`. -/
def max (a b : Number) : Number :=
  if a = .nan then b else if b = .nan then a else if a.less b then b else a

/-- Whether the number is finite and has no fraction. -/
def isWhole : Number → Bool
  | .finite _ m => m.steps % stepsPerUnit == 0
  | _ => false

/-- The greatest integer not above the number; infinities and `nan` stay. -/
def floor : Number → Number
  | .finite negative m =>
    if m.steps % stepsPerUnit = 0 then .finite negative m
    else if negative then ofInt (-((m.steps / stepsPerUnit : Nat) + 1 : Int))
    else ofNat (m.steps / stepsPerUnit)
  | n => n

/-- The nearest integer, a half going away from zero; infinities and `nan` stay. -/
def roundAway : Number → Number
  | .finite negative m =>
    if m.steps % stepsPerUnit = 0 then .finite negative m
    else
      let units := (2 * m.steps + stepsPerUnit) / (2 * stepsPerUnit)
      ofQuotient negative (units * stepsPerUnit) 1
  | n => n

/-- The natural number without its fraction, `0` below zero and for `nan`, and `top` from
`top` on. -/
def toNatUpTo (top : Nat) : Number → Nat
  | .nan => 0
  | .infinite negative => if negative then 0 else top
  | .finite negative m => if negative then 0 else Nat.min (m.steps / stepsPerUnit) top

/-- The integer without its fraction, clamped to `low` and `high`; `0` for `nan`. -/
def toIntWithin (low high : Int) : Number → Int
  | .nan => 0
  | .infinite negative => if negative then low else high
  | .finite negative m =>
    let units : Int := (m.steps / stepsPerUnit : Nat)
    if negative then (if -units < low then low else -units)
    else if high < units then high else units

theorem isFinite_neg (a : Number) : a.neg.isFinite = a.isFinite := by
  cases a <;> rfl

end Number

end PipeQuery
