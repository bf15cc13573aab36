/-!
# Numbers in other bases

Digits beyond nine are letters in either case, so that bases up to sixteen can be read.
-/

namespace PipeQuery

/-- The value of a digit in a base up to sixteen. -/
def digitIn? (base : Nat) (c : Char) : Option Nat :=
  let value? :=
    if c.isDigit then some (c.toNat - '0'.toNat)
    else if 'a' ≤ c ∧ c ≤ 'f' then some (c.toNat - 'a'.toNat + 10)
    else if 'A' ≤ c ∧ c ≤ 'F' then some (c.toNat - 'A'.toNat + 10)
    else none
  value?.filter (· < base)

/-- The number that digits go on to spell from `n`. -/
def numberFrom? (base n : Nat) : List Char → Option Nat
  | [] => some n
  | c :: rest => (digitIn? base c).bind fun d => numberFrom? base (base * n + d) rest

/-- The number that digits spell, of which there is at least one. -/
def numberIn? (base : Nat) (digits : List Char) : Option Nat :=
  if digits.isEmpty then none else numberFrom? base 0 digits

/-- The character with this number, if it has one. -/
def charAt? (n : Nat) : Option Char := if n.isValidChar then some (Char.ofNat n) else none

end PipeQuery
