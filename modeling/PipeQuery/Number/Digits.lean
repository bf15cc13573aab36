import PipeQuery.Number.Basic

/-!
# Decimal digits of a number

A decimal numeral is a coefficient and a power of ten.  `Digits.magnitude?`
reads one: it gives the magnitude nearest to the exact value.  `shortest` writes
one: of the numerals that read back to the magnitude it takes one with the
fewest digits, and of those the one nearest to the exact value.  It looks at
ever finer decimal grids, and on each grid at the two neighbours of the value.

`magnitude?_shortest` says that what is written reads back.
-/

namespace PipeQuery

/-- A decimal numeral: `coefficient * 10 ^ exponent`. -/
structure Digits where
  /-- The digits as one natural number. -/
  coefficient : Nat
  /-- The power of ten that the last digit counts. -/
  exponent : Int
deriving DecidableEq

/-- What to take of two numerals with equally many digits, equally near to the value. -/
inductive Tie where
  /-- The numeral whose last digit is even. -/
  | even
  /-- The larger numeral. -/
  | up
deriving DecidableEq

namespace Digits

/-- The magnitude nearest to the numeral, none from the limit on.

The two early answers are those that rounding gives, without powers of ten of any size: a
numeral above `10 ^ 308` with a nonzero digit is beyond the limit, and one below
`2 ^ -1100` is nearest to zero. -/
def magnitude? (d : Digits) : Option Magnitude :=
  if d.coefficient = 0 then some .zero
  else if 0 ≤ d.exponent then
    if 308 < d.exponent then none
    else Magnitude.ofQuotient? (d.coefficient * 10 ^ d.exponent.toNat * stepsPerUnit) 1
  else if d.coefficient.log2 + 1101 < 3 * (-d.exponent).toNat then some .zero
  else Magnitude.ofQuotient? (d.coefficient * stepsPerUnit) (10 ^ (-d.exponent).toNat)

/-- Whether the numeral reads back to the magnitude. -/
def readsBack (d : Digits) (m : Magnitude) : Bool := d.magnitude? == some m

end Digits

namespace Magnitude

/-- All digits of a magnitude: a step is `5 ^ 1074` times `10 ^ -1074`. -/
def allDigits (m : Magnitude) : Digits := ⟨m.steps * 5 ^ 1074, -1074⟩

/-- The power of ten of the leading digit, for a magnitude above zero. -/
def leadingExponent (m : Magnitude) : Int :=
  (Nat.toDigits 10 (m.steps * 10 ^ 400 / stepsPerUnit)).length - 401

/-- The magnitude as a quotient of natural numbers, counted in `10 ^ e`. -/
def inTens (m : Magnitude) (e : Int) : Nat × Nat :=
  if 0 ≤ e then (m.steps, stepsPerUnit * 10 ^ e.toNat)
  else (m.steps * 10 ^ (-e).toNat, stepsPerUnit)

/-- The numeral on the grid of `10 ^ e` that reads back and is nearest, if one reads back. -/
def onGrid? (tie : Tie) (m : Magnitude) (e : Int) : Option Digits :=
  let (num, den) := m.inTens e
  let low := num / den
  let below : Digits := ⟨low, e⟩
  let above : Digits := ⟨low + 1, e⟩
  if below.readsBack m then
    if above.readsBack m then
      let middle := (2 * low + 1) * den
      if 2 * num < middle then some below
      else if middle < 2 * num then some above
      else match tie with
        | .up => some above
        | .even => if low % 2 = 0 then some below else some above
    else some below
  else if above.readsBack m then some above
  else none

/-- The first of `rounds` grids, from `10 ^ e` downward, with a numeral that reads back; all
digits if there is none. -/
def firstOnGrids (tie : Tie) (m : Magnitude) (e : Int) : Nat → Digits
  | 0 => m.allDigits
  | rounds + 1 =>
    match m.onGrid? tie e with
    | some d => d
    | none => firstOnGrids tie m (e - 1) rounds

/-- The fewest digits that read back to the magnitude, as near to it as they can be. -/
def shortest (tie : Tie) (m : Magnitude) : Digits :=
  if m.steps = 0 then ⟨0, 0⟩ else m.firstOnGrids tie (m.leadingExponent + 1) 18

theorem magnitude?_allDigits (m : Magnitude) : m.allDigits.magnitude? = some m := by
  by_cases hz : m.steps = 0
  · have hm : m = zero := by cases m; cases hz; rfl
    subst hm
    decide +kernel
  · have hpos : 0 < 5 ^ 1074 := by decide +kernel
    have hc : m.steps * 5 ^ 1074 ≠ 0 := Nat.mul_ne_zero hz (Nat.ne_of_gt hpos)
    have hlog : ¬ (m.steps * 5 ^ 1074).log2 + 1101 < 3 * (-(-1074 : Int)).toNat := by
      have h1 : 2 ^ 2493 ≤ m.steps * 5 ^ 1074 := by
        refine Nat.le_trans (m := 5 ^ 1074) (by decide +kernel) ?_
        exact Nat.le_mul_of_pos_left _ (Nat.pos_of_ne_zero hz)
      have h2 := (Nat.le_log2 hc).2 h1
      have h3 : 3 * (-(-1074 : Int)).toNat = 3222 := by decide
      omega
    have hten : (10 : Nat) ^ (-(-1074 : Int)).toNat = 1 * (5 ^ 1074 * stepsPerUnit) := by
      decide +kernel
    have hround : roundSteps (m.steps * 5 ^ 1074 * stepsPerUnit) (1 * (5 ^ 1074 * stepsPerUnit))
        = m.steps := by
      rw [Nat.mul_assoc, roundSteps_mul_right _ (Nat.mul_pos hpos (by decide +kernel))]
      exact roundSteps_one_of_dvd m.spacing_dvd
    simp only [allDigits, Digits.magnitude?, hc, hlog, hten, ofQuotient?, hround]
    simp [m.steps_lt]

theorem magnitude?_onGrid? {tie : Tie} {m : Magnitude} {e : Int} {d : Digits}
    (h : m.onGrid? tie e = some d) : d.magnitude? = some m := by
  unfold onGrid? at h
  dsimp only at h
  split at h
  · rename_i hb
    split at h
    · rename_i ha
      split at h
      · exact Option.some.inj h ▸ eq_of_beq hb
      · split at h
        · exact Option.some.inj h ▸ eq_of_beq ha
        · split at h
          · exact Option.some.inj h ▸ eq_of_beq ha
          · split at h
            · exact Option.some.inj h ▸ eq_of_beq hb
            · exact Option.some.inj h ▸ eq_of_beq ha
    · exact Option.some.inj h ▸ eq_of_beq hb
  · split at h
    · rename_i ha
      exact Option.some.inj h ▸ eq_of_beq ha
    · simp at h

theorem magnitude?_firstOnGrids (tie : Tie) (m : Magnitude) (rounds : Nat) :
    ∀ e : Int, (m.firstOnGrids tie e rounds).magnitude? = some m := by
  induction rounds with
  | zero => exact fun _ => m.magnitude?_allDigits
  | succ rounds ih =>
    intro e
    unfold firstOnGrids
    split
    · rename_i d hd
      exact magnitude?_onGrid? hd
    · exact ih (e - 1)

/-- The shortest digits read back to the magnitude they were written for. -/
theorem magnitude?_shortest (tie : Tie) (m : Magnitude) :
    (m.shortest tie).magnitude? = some m := by
  unfold shortest
  split
  · rename_i hz
    cases m
    simp_all [Digits.magnitude?, zero]
  · exact m.magnitude?_firstOnGrids tie 18 _

end Magnitude

namespace Number

/-- The number nearest to a signed numeral. -/
def ofDigits (negative : Bool) (d : Digits) : Number := ofMagnitude? negative d.magnitude?

end Number

end PipeQuery
