import PipeQuery.Number.Arithmetic

/-!
# Integers among the numbers

A number *is* an integer (`IsInt`) if it is finite and stands that many units from zero.  Every
integer up to `2 ^ 53` on either side is some number (`isInt_ofInt`); from there on the number
made from it may be a neighbour.

Rounding down makes its result by `ofInt`, which could round a second time.  But a magnitude with
a fraction has fewer than `2 ^ 53` units, since farther out the spacing is a whole unit and more
(`Magnitude.steps_lt_of_fraction`).  So `floor` is exact everywhere (`isInt_floor`).

A sum of two integers is the integer nearest to their sum (`position?_add`).  From `2 ^ 53` on
it is rounded, but it keeps its side of zero (`not_equals_of_neg`).  Cut to a range, an integer is
the one in the range that is nearest to it (`toNatUpTo_of_isInt`, `toIntWithin_of_isInt`).
-/

namespace PipeQuery

theorem stepsPerUnit_pos : 0 < stepsPerUnit := by decide +kernel

theorem natCast_stepsPerUnit_pos : 0 < (stepsPerUnit : Int) :=
  Int.natCast_pos.2 stepsPerUnit_pos

/-- Distinct integers stand at distinct places. -/
theorem mul_stepsPerUnit_inj {x y : Int} : x * stepsPerUnit = y * stepsPerUnit ↔ x = y :=
  Int.mul_eq_mul_right_iff (Int.ne_of_gt natCast_stepsPerUnit_pos)

theorem mul_stepsPerUnit_neg_iff {x : Int} : x * stepsPerUnit < 0 ↔ x < 0 := by
  have h := Int.mul_lt_mul_right (b := x) (c := 0) natCast_stepsPerUnit_pos
  rwa [Int.zero_mul] at h

/-! ## Rounding -/

theorem spacing_le {n : Nat} (h : 0 < n) : spacing n ≤ n := by
  have hlog : 2 ^ n.log2 ≤ n := Nat.log2_self_le (Nat.ne_of_gt h)
  refine Nat.le_trans ?_ hlog
  exact Nat.pow_le_pow_right (by decide) (by omega)

/-- Rounding takes nothing to zero but zero. -/
theorem roundSteps_pos {n : Nat} (h : 0 < n) : 0 < roundSteps n 1 := by
  unfold roundSteps
  dsimp only
  rw [Nat.div_one, Nat.one_mul]
  have hone : 1 ≤ n / spacing n := (Nat.one_le_div_iff (spacing_pos n)).2 (spacing_le h)
  exact Nat.mul_pos (Nat.le_trans hone (le_roundHalfEven n (spacing n))) (spacing_pos n)

namespace Magnitude

/-- So many units, few enough not to be rounded. -/
def whole (n : Nat) (h : n ≤ 2 ^ 53) : Magnitude where
  steps := n * stepsPerUnit
  steps_lt := by
    have hlimit : 2 ^ 53 * stepsPerUnit < magnitudeLimit := by decide +kernel
    exact Nat.lt_of_le_of_lt (Nat.mul_le_mul_right _ h) hlimit
  spacing_dvd := spacing_dvd_mul_two_pow h

/-- From `2 ^ 53` units on there are no fractions. -/
theorem steps_lt_of_fraction {m : Magnitude} (h : m.steps % stepsPerUnit ≠ 0) :
    m.steps < 2 ^ 53 * stepsPerUnit := by
  refine Nat.lt_of_not_le fun hlarge => h (Nat.mod_eq_zero_of_dvd ?_)
  have hpos : m.steps ≠ 0 := by
    intro hzero
    rw [hzero, Nat.zero_mod] at h
    exact h rfl
  have hlog : 1127 ≤ m.steps.log2 := by
    refine (Nat.le_log2 hpos).2 (Nat.le_trans (Nat.le_of_eq ?_) hlarge)
    decide +kernel
  obtain ⟨e, he, hunit⟩ : ∃ e ≤ 1074, stepsPerUnit = 2 ^ e := ⟨1074, Nat.le_refl _, rfl⟩
  have hgap : stepsPerUnit ∣ spacing m.steps := by
    rw [hunit]
    exact Nat.pow_dvd_pow 2 (by omega)
  exact Nat.dvd_trans hgap m.spacing_dvd

end Magnitude

namespace Number

variable {a b k : Number} {n x y : Int}

/-! ## Integers -/

/-- A finite number that is the integer. -/
def IsInt (k : Number) (n : Int) : Prop :=
  ∃ negative m, k = .finite negative m ∧ m.signed negative = n * stepsPerUnit

theorem IsInt.position? (h : k.IsInt n) : k.position? = some (n * stepsPerUnit) := by
  obtain ⟨negative, m, rfl, hm⟩ := h
  exact congrArg some hm

theorem IsInt.equals_iff (ha : a.IsInt x) (hb : b.IsInt y) : a.equals b = true ↔ x = y := by
  rw [Number.equals_iff, ha.position?, hb.position?]
  constructor
  · rintro ⟨z, hx, hy⟩
    exact mul_stepsPerUnit_inj.1 (Option.some.inj (hx.trans hy.symm))
  · rintro rfl
    exact ⟨_, rfl, rfl⟩

/-- An integer up to `2 ^ 53` is a number without rounding. -/
theorem ofInt_eq (h : n.natAbs ≤ 2 ^ 53) :
    ofInt n = .finite (decide (n < 0)) (.whole n.natAbs h) :=
  ofQuotient_steps _ (.whole n.natAbs h)

theorem ofInt_zero : ofInt 0 = .zero := by
  have hzero : Magnitude.whole 0 (Nat.zero_le _) = .zero := by simp [Magnitude.whole, Magnitude.zero]
  exact (ofInt_eq (Nat.zero_le _)).trans (congrArg (finite false) hzero)

theorem ofNat_eq {n : Nat} (h : n ≤ 2 ^ 53) : ofNat n = .finite false (.whole n h) :=
  ofQuotient_steps false (.whole n h)

theorem ofInt_natCast (n : Nat) : ofInt n = ofNat n := by
  have hn : ¬ (n : Int) < 0 := by omega
  rw [ofInt, ofNat, decide_eq_false hn, Int.natAbs_natCast]

theorem isInt_ofInt (h : n.natAbs ≤ 2 ^ 53) : (ofInt n).IsInt n := by
  refine ⟨_, _, ofInt_eq h, ?_⟩
  rw [Magnitude.signed, Magnitude.whole]
  by_cases hneg : n < 0
  · rw [if_pos (decide_eq_true hneg), Int.natCast_mul, ← Int.neg_mul]
    congr 1
    omega
  · rw [if_neg (by simpa using hneg), Int.natCast_mul]
    congr 1
    omega

theorem isInt_ofNat {n : Nat} (h : n ≤ 2 ^ 53) : (ofNat n).IsInt n := by
  rw [← ofInt_natCast]
  exact isInt_ofInt (by omega)

theorem isInt_zero : zero.IsInt 0 :=
  ⟨false, .zero, rfl, (Int.zero_mul _).symm⟩

/-- An integer lies below zero if it is negative. -/
theorem IsInt.less_zero (h : k.IsInt n) : k.less .zero = true ↔ n < 0 := by
  rw [less, compare?, h.position?, isInt_zero.position?, Int.zero_mul]
  show (some (compare (n * stepsPerUnit) 0) == some .lt) = true ↔ n < 0
  rw [beq_iff_eq, Option.some.injEq, Int.compare_eq_lt, mul_stepsPerUnit_neg_iff]

/-! ## Sums -/

/-- A negative integer stays negative when it is rounded. -/
theorem exists_position?_neg (h : n < 0) : ∃ x < 0, (ofInt n).position? = some x := by
  have hsteps : 0 < n.natAbs * stepsPerUnit := Nat.mul_pos (by omega) stepsPerUnit_pos
  have hround := roundSteps_pos hsteps
  rw [ofInt, decide_eq_true h, ofQuotient, Magnitude.ofQuotient?]
  split
  · exact ⟨_, Int.neg_neg_of_pos (Int.natCast_pos.2 hround), congrArg some (if_pos rfl)⟩
  · exact ⟨_, Int.neg_neg_of_pos (Int.natCast_pos.2 magnitudeLimit_pos),
      congrArg some (if_pos rfl)⟩

/-- A negative integer, rounded or not, equals none from zero on. -/
theorem not_equals_of_neg (h : n < 0) (ha : a.IsInt x) (hx : 0 ≤ x) :
    ¬ (ofInt n).equals a = true := by
  obtain ⟨z, hz, hplace⟩ := exists_position?_neg h
  rw [Number.equals_iff, hplace, ha.position?]
  rintro ⟨y, hzy, hxy⟩
  have hnegative : x * stepsPerUnit < 0 := by
    rw [Option.some.inj (hxy.trans hzy.symm)]
    exact hz
  have := mul_stepsPerUnit_neg_iff.1 hnegative
  omega

theorem ofSteps_mul_stepsPerUnit (n : Int) : ofSteps (n * stepsPerUnit) = ofInt n := by
  rw [ofSteps, ofInt, Int.natAbs_mul, Int.natAbs_natCast]
  congr 1
  exact decide_eq_decide.2 mul_stepsPerUnit_neg_iff

/-- A sum of integers stands where the number nearest to their sum stands. -/
theorem position?_add (ha : a.IsInt x) (hb : b.IsInt y) :
    (a.add b).position? = (ofInt (x + y)).position? := by
  obtain ⟨s, m, rfl, hm⟩ := ha
  obtain ⟨t, m', rfl, hm'⟩ := hb
  have hsum : m.signed s + m'.signed t = (x + y) * stepsPerUnit := by
    rw [hm, hm', Int.add_mul]
  rw [add, hsum]
  split
  · rename_i hzero
    have hxy : x + y = 0 := by
      rw [← Int.zero_mul (stepsPerUnit : Int)] at hzero
      exact mul_stepsPerUnit_inj.1 hzero
    rw [hxy, (isInt_ofInt (n := 0) (by decide)).position?, Int.zero_mul]
    cases s && t <;> rfl
  · rw [ofSteps_mul_stepsPerUnit]

/-- A sum of integers equals what the number nearest to their sum equals. -/
theorem equals_add (ha : a.IsInt x) (hb : b.IsInt y) (k : Number) :
    (a.add b).equals k = (ofInt (x + y)).equals k := by
  rw [equals, equals, position?_add ha hb]

/-! ## The integer below a number -/

/-- The greatest integer that is not above a finite number. -/
def floor? : Number → Option Int
  | .finite negative m => some (m.signed negative / stepsPerUnit)
  | _ => none

theorem IsInt.floor? (h : k.IsInt n) : k.floor? = some n := by
  obtain ⟨negative, m, rfl, hm⟩ := h
  rw [Number.floor?, hm, Int.mul_ediv_cancel _ (Int.ne_of_gt natCast_stepsPerUnit_pos)]

/-- Rounding down gives the integer below a finite number, as a number. -/
theorem isInt_floor (h : k.floor? = some n) : k.floor.IsInt n := by
  cases k with
  | nan => cases h
  | infinite negative => cases h
  | finite negative m =>
    cases h
    rw [floor]
    split
    · rename_i hwhole
      have hdvd : (stepsPerUnit : Int) ∣ m.steps :=
        Int.natCast_dvd_natCast.2 (Nat.dvd_of_mod_eq_zero hwhole)
      refine ⟨negative, m, rfl, (Int.ediv_mul_cancel ?_).symm⟩
      cases negative with
      | false => exact hdvd
      | true => exact Int.dvd_neg.2 hdvd
    · rename_i hfraction
      have hlt : m.steps / stepsPerUnit < 2 ^ 53 :=
        Nat.div_lt_of_lt_mul (Nat.mul_comm _ _ ▸ Magnitude.steps_lt_of_fraction hfraction)
      cases negative with
      | false => exact isInt_ofNat (Nat.le_of_lt hlt)
      | true =>
        have hdvd : ¬ (stepsPerUnit : Int) ∣ m.steps := fun hdvd =>
          hfraction (Nat.mod_eq_zero_of_dvd (Int.natCast_dvd_natCast.1 hdvd))
        have hfloor : (Magnitude.signed true m) / stepsPerUnit
            = -((m.steps / stepsPerUnit : Nat) + 1 : Int) := by
          rw [Magnitude.signed, if_pos rfl, Int.neg_ediv, if_neg hdvd,
            Int.sign_eq_one_of_pos natCast_stepsPerUnit_pos, Int.natCast_ediv, Int.neg_add]
          rfl
        have hbound : (-((m.steps / stepsPerUnit : Nat) + 1 : Int)).natAbs ≤ 2 ^ 53 := by
          rw [Int.natAbs_neg]
          exact hlt
        rw [hfloor]
        exact isInt_ofInt hbound

/-! ## Numbers without an integer below them -/

theorem floor_of_floor?_eq_none (h : k.floor? = none) : k.floor = k := by
  cases k with
  | nan => rfl
  | infinite negative => rfl
  | finite negative m => cases h

/-- What is not finite stays what it is in sums with integers. -/
theorem add_of_floor?_eq_none (h : k.floor? = none) (ha : a.IsInt x) : a.add k = k := by
  obtain ⟨s, m, rfl, -⟩ := ha
  cases k with
  | nan => rfl
  | infinite negative => rfl
  | finite negative m => cases h

/-- What is not finite equals no integer. -/
theorem not_equals_of_floor?_eq_none (h : k.floor? = none) (ha : a.IsInt x) :
    ¬ k.equals a = true := by
  obtain ⟨s, m, rfl, -⟩ := ha
  rw [Number.equals_iff]
  rintro ⟨y, hk, hm⟩
  have hlt := m.steps_lt
  cases k with
  | nan => cases hk
  | infinite negative =>
    cases negative <;> cases s <;>
      simp only [position?, Magnitude.signed, Option.some.injEq, Bool.false_eq_true, if_true,
        if_false] at hk hm <;>
      omega
  | finite negative m => cases h

/-- Rounding down a second time changes nothing. -/
theorem floor?_floor (k : Number) : k.floor.floor? = k.floor? := by
  cases hk : k.floor? with
  | some n => exact (isInt_floor hk).floor?
  | none => rw [floor_of_floor?_eq_none hk, hk]

/-! ## Integers cut to a range -/

theorem IsInt.floor (h : k.IsInt n) : k.floor.IsInt n := isInt_floor h.floor?

/-- An integer is a sign and so many units. -/
theorem IsInt.exists_units (h : k.IsInt n) :
    ∃ negative m, k = .finite negative m ∧ m.steps = n.natAbs * stepsPerUnit
      ∧ n = if negative then -(n.natAbs : Int) else n.natAbs := by
  obtain ⟨negative, m, rfl, hm⟩ := h
  have hsteps : m.steps = n.natAbs * stepsPerUnit := by
    have habs := congrArg Int.natAbs hm
    rw [Int.natAbs_mul, Int.natAbs_natCast] at habs
    rw [← habs]
    cases negative <;> simp [Magnitude.signed]
  refine ⟨negative, m, rfl, hsteps, mul_stepsPerUnit_inj.1 ?_⟩
  rw [← hm, Magnitude.signed, hsteps, Int.natCast_mul]
  split
  · rw [Int.neg_mul]
  · rfl

/-- The units of an integer are whole. -/
theorem IsInt.exists_whole (h : k.IsInt n) :
    ∃ negative m, k = .finite negative m ∧ m.steps / stepsPerUnit = n.natAbs
      ∧ if negative then n ≤ 0 else 0 ≤ n := by
  obtain ⟨negative, m, rfl, hsteps, hn⟩ := h.exists_units
  refine ⟨negative, m, rfl, ?_, ?_⟩
  · rw [hsteps, Nat.mul_div_cancel _ stepsPerUnit_pos]
  · cases negative with
    | false =>
      have hn : n = n.natAbs := hn
      show 0 ≤ n
      omega
    | true =>
      have hn : n = -(n.natAbs : Int) := hn
      show n ≤ 0
      omega

end Number

variable {k : Number} {n : Int}

theorem toNatUpTo_of_isInt (h : k.IsInt n) (top : Nat) : k.toNatUpTo top = min n.toNat top := by
  obtain ⟨negative, m, rfl, hunits, hsign⟩ := h.exists_whole
  rw [Number.toNatUpTo, hunits]
  cases negative with
  | false =>
    have hsign : 0 ≤ n := hsign
    have habs : n.natAbs = n.toNat := by omega
    rw [if_neg Bool.false_ne_true, habs]
  | true =>
    have hsign : n ≤ 0 := hsign
    rw [if_pos rfl, Int.toNat_of_nonpos hsign, Nat.zero_min]

theorem toIntWithin_of_isInt {low high : Int} (h : k.IsInt n) (hlow : low ≤ 0)
    (hhigh : 0 ≤ high) : k.toIntWithin low high = max low (min n high) := by
  obtain ⟨negative, m, rfl, hunits, hsign⟩ := h.exists_whole
  rw [Number.toIntWithin, hunits]
  cases negative with
  | false =>
    have hsign : 0 ≤ n := hsign
    simp only [Bool.false_eq_true, if_false]
    split <;> omega
  | true =>
    have hsign : n ≤ 0 := hsign
    simp only [if_true]
    split <;> omega

/-- Whatever the number, what it is cut to lies in the range. -/
theorem toIntWithin_mem {low high : Int} (hlow : low ≤ 0) (hhigh : 0 ≤ high) (k : Number) :
    low ≤ k.toIntWithin low high ∧ k.toIntWithin low high ≤ high := by
  cases k with
  | nan => exact ⟨hlow, hhigh⟩
  | infinite negative =>
    rw [Number.toIntWithin]
    split <;> omega
  | finite negative m =>
    rw [Number.toIntWithin]
    generalize m.steps / stepsPerUnit = units
    split <;> split <;> omega

end PipeQuery
