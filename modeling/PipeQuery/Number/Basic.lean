/-!
# Numbers

Every number of the language is a binary floating-point number with 53
significant bits, or one of two infinities, or the value that is no number.
Nothing here is computed by hardware: a finite number is a sign and a count of
*steps* of size `2 ^ -1074`, so that every operation can be stated exactly and
rounded once.

* `spacing n` is the distance between neighbouring magnitudes around `n` steps.
  A magnitude is a count below `magnitudeLimit` that its own spacing divides.
* `roundSteps` takes an exact quotient to the nearest magnitude, a tie going to
  the even neighbour.
* `Number.position?` puts a number on the line of integers, the infinities at
  the limit on either side.  Order and equality are read off it, so that the
  two zeros are equal and the value that is no number equals nothing.

`spacing_dvd_roundSteps` says that rounding gives a magnitude, and
`roundSteps_one_of_dvd` that it changes none.
-/

namespace PipeQuery

/-- Powers are those of the core library, whatever is imported beside it. -/
@[default_instance 20000]
instance (priority := 20000) powOfNatPow {α : Type} [NatPow α] : Pow α Nat := instPowNat

/-- The number of steps in one unit. -/
def stepsPerUnit : Nat := 2 ^ 1074

/-- The first count of steps that is too large for a finite number. -/
def magnitudeLimit : Nat := 2 ^ 2098

/-- The distance in steps between neighbouring magnitudes around `n` steps. -/
def spacing (n : Nat) : Nat := 2 ^ (n.log2 + 1 - 53)

/-- The integer nearest to `num / den`, the even one of two that are equally near. -/
def roundHalfEven (num den : Nat) : Nat :=
  let low := num / den
  let rest := num % den
  if 2 * rest < den then low
  else if den < 2 * rest then low + 1
  else low + low % 2

/-- The magnitude nearest to `num / den` steps, before the limit is looked at. -/
def roundSteps (num den : Nat) : Nat :=
  let gap := spacing (num / den)
  roundHalfEven num (den * gap) * gap

theorem magnitudeLimit_pos : 0 < magnitudeLimit := by decide +kernel

theorem spacing_pos (n : Nat) : 0 < spacing n :=
  Nat.pow_pos (by decide)

theorem le_roundHalfEven (num den : Nat) : num / den ≤ roundHalfEven num den := by
  unfold roundHalfEven
  dsimp only
  split
  · exact Nat.le_refl _
  · split <;> omega

theorem roundHalfEven_le_succ (num den : Nat) : roundHalfEven num den ≤ num / den + 1 := by
  unfold roundHalfEven
  dsimp only
  split
  · omega
  · split <;> omega

/-- A quotient without remainder is not changed by rounding. -/
theorem roundHalfEven_mul_left (m : Nat) {den : Nat} (h : 0 < den) :
    roundHalfEven (den * m) den = m := by
  simp [roundHalfEven, Nat.mul_div_cancel_left m h, h]

/-- A count with at most 53 significant bits above `2 ^ k` is a multiple of its spacing. -/
theorem spacing_dvd_mul_two_pow {m k : Nat} (h : m ≤ 2 ^ 53) :
    spacing (m * 2 ^ k) ∣ m * 2 ^ k := by
  rcases Nat.lt_or_ge m (2 ^ 53) with hm | hm
  · have hlog : (m * 2 ^ k).log2 + 1 - 53 ≤ k := by
      by_cases hz : m * 2 ^ k = 0
      · simp [hz]
      · have hlt : m * 2 ^ k < 2 ^ (53 + k) := by
          rw [Nat.pow_add]
          exact Nat.mul_lt_mul_of_pos_right hm (Nat.pow_pos (by decide))
        have := (Nat.log2_lt hz).2 hlt
        omega
    exact Nat.dvd_trans (Nat.pow_dvd_pow 2 hlog) (Nat.dvd_mul_left _ _)
  · have hm' : m = 2 ^ 53 := Nat.le_antisymm h hm
    subst hm'
    rw [← Nat.pow_add]
    refine Nat.pow_dvd_pow 2 ?_
    rw [Nat.log2_two_pow]
    omega

/-- Rounding gives a multiple of the spacing around it. -/
theorem spacing_dvd_roundSteps (num den : Nat) :
    spacing (roundSteps num den) ∣ roundSteps num den := by
  unfold roundSteps
  dsimp only
  refine spacing_dvd_mul_two_pow ?_
  refine Nat.le_trans (roundHalfEven_le_succ _ _) ?_
  have hlt : num / (den * spacing (num / den)) < 2 ^ 53 := by
    rw [← Nat.div_div_eq_div_mul]
    refine Nat.div_lt_of_lt_mul ?_
    have h1 : num / den < 2 ^ ((num / den).log2 + 1) := Nat.lt_log2_self
    refine Nat.lt_of_lt_of_le h1 ?_
    unfold spacing
    rw [← Nat.pow_add]
    exact Nat.pow_le_pow_right (by decide) (by omega)
  omega

/-- Rounding does not change a count that is a magnitude already. -/
theorem roundSteps_one_of_dvd {n : Nat} (h : spacing n ∣ n) : roundSteps n 1 = n := by
  obtain ⟨m, hm⟩ := h
  have hr : roundHalfEven n (spacing n) = m := by
    have := roundHalfEven_mul_left m (spacing_pos n)
    rwa [← hm] at this
  simp only [roundSteps, Nat.div_one, Nat.one_mul, hr]
  rw [Nat.mul_comm]
  exact hm.symm

/-- A factor common to both sides of the quotient does not matter to rounding. -/
theorem roundSteps_mul_right (num : Nat) {den k : Nat} (hk : 0 < k) :
    roundSteps (num * k) (den * k) = roundSteps num den := by
  have hround : ∀ d : Nat, roundHalfEven (num * k) (d * k) = roundHalfEven num d := by
    intro d
    have h1 : num * k / (d * k) = num / d := Nat.mul_div_mul_right _ _ hk
    have h2 : num * k % (d * k) = num % d * k := Nat.mul_mod_mul_right _ _ _
    have h3 : 2 * (num % d * k) < d * k ↔ 2 * (num % d) < d := by
      rw [← Nat.mul_assoc]; exact Nat.mul_lt_mul_right hk
    have h4 : d * k < 2 * (num % d * k) ↔ d < 2 * (num % d) := by
      rw [← Nat.mul_assoc]; exact Nat.mul_lt_mul_right hk
    simp only [roundHalfEven, h1, h2, h3, h4]
  have hdiv : num * k / (den * k) = num / den := Nat.mul_div_mul_right _ _ hk
  simp only [roundSteps, hdiv]
  rw [Nat.mul_assoc, Nat.mul_comm k, ← Nat.mul_assoc, hround]

/-- The size of a finite number, counted in steps. -/
structure Magnitude where
  /-- How many steps. -/
  steps : Nat
  /-- The count is below the limit. -/
  steps_lt : steps < magnitudeLimit
  /-- The count has 53 significant bits at most. -/
  spacing_dvd : spacing steps ∣ steps
deriving DecidableEq

/-- A number: none at all, an infinity, or a sign and a magnitude. -/
inductive Number where
  /-- The result of an operation that has none. -/
  | nan
  /-- Beyond every finite number on one side. -/
  | infinite (negative : Bool)
  /-- A finite number; zero has both signs. -/
  | finite (negative : Bool) (magnitude : Magnitude)
deriving DecidableEq

namespace Magnitude

/-- No steps. -/
def zero : Magnitude := ⟨0, magnitudeLimit_pos, Nat.dvd_zero _⟩

/-- The magnitude nearest to `num / den` steps; none from the limit on. -/
def ofQuotient? (num den : Nat) : Option Magnitude :=
  if h : roundSteps num den < magnitudeLimit then
    some ⟨roundSteps num den, h, spacing_dvd_roundSteps num den⟩
  else none

/-- Rounding does not change a magnitude. -/
theorem ofQuotient?_steps (m : Magnitude) : ofQuotient? m.steps 1 = some m := by
  have h := roundSteps_one_of_dvd m.spacing_dvd
  unfold ofQuotient?
  rw [dif_pos (by rw [h]; exact m.steps_lt)]
  cases m
  simp_all

/-- The steps with a sign. -/
def signed (negative : Bool) (m : Magnitude) : Int :=
  if negative then -(m.steps : Int) else m.steps

end Magnitude

namespace Number

/-- A sign and a magnitude, where no magnitude stands for one beyond the limit. -/
def ofMagnitude? (negative : Bool) : Option Magnitude → Number
  | some m => .finite negative m
  | none => .infinite negative

/-- The number nearest to `± num / den` steps, an infinity from the limit on. -/
def ofQuotient (negative : Bool) (num den : Nat) : Number :=
  ofMagnitude? negative (Magnitude.ofQuotient? num den)

/-- The number nearest to a signed count of steps. -/
def ofSteps (z : Int) : Number := ofQuotient (decide (z < 0)) z.natAbs 1

/-- The number nearest to a natural number. -/
def ofNat (n : Nat) : Number := ofQuotient false (n * stepsPerUnit) 1

/-- The number nearest to an integer. -/
def ofInt (z : Int) : Number := ofQuotient (decide (z < 0)) (z.natAbs * stepsPerUnit) 1

/-- Zero. -/
def zero : Number := .finite false .zero

/-- Neither an infinity nor the value that is no number. -/
def isFinite : Number → Bool
  | .finite _ _ => true
  | _ => false

/-- Where a number stands on the line of steps. -/
def position? : Number → Option Int
  | .nan => none
  | .infinite negative => some (if negative then -(magnitudeLimit : Int) else magnitudeLimit)
  | .finite negative m => some (m.signed negative)

/-- Numeric equality: both zeros are equal, and nothing equals `nan`. -/
def equals (a b : Number) : Bool :=
  match a.position?, b.position? with
  | some x, some y => x == y
  | _, _ => false

/-- The order of two numbers, if both have a place on the line. -/
def compare? (a b : Number) : Option Ordering :=
  match a.position?, b.position? with
  | some x, some y => some (compare x y)
  | _, _ => none

/-- Whether `a` stands strictly left of `b`. -/
def less (a b : Number) : Bool := a.compare? b == some .lt

/-- Rounding does not change a magnitude. -/
theorem ofQuotient_steps (negative : Bool) (m : Magnitude) :
    ofQuotient negative m.steps 1 = .finite negative m := by
  simp [ofQuotient, Magnitude.ofQuotient?_steps, ofMagnitude?]

/-- Numeric equality holds between numbers at the same place. -/
theorem equals_iff {a b : Number} :
    a.equals b = true ↔ ∃ x, a.position? = some x ∧ b.position? = some x := by
  unfold equals
  constructor
  · intro h
    split at h
    · rename_i x y hx hy
      exact ⟨x, hx, by rw [hy, eq_of_beq h]⟩
    · simp at h
  · rintro ⟨x, hx, hy⟩
    simp [hx, hy]

end Number

end PipeQuery
