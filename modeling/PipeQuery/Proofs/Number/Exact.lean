import Mathlib.Algebra.BigOperators.Group.List.Basic
import Mathlib.Algebra.Ring.Int.Defs
import Mathlib.Data.List.Forall2
import Mathlib.Data.List.Infix
import PipeQuery.Operator.Apply
import PipeQuery.Proofs.Number.Whole

/-!
# Exact arithmetic on integers

Arithmetic takes two numbers to decimals, computes there, and takes the result back.  On integers
none of the three steps loses anything:

* the walk from the binary form of an integer to its decimal only halves what is even or doubles
  what has room (`tradeHalves_mul_two_pow`, `tradeDoubles_eq`), and ends at the integer itself
  with no digit behind the point (`ofNumber?_of_isInt`);
* the operations of decimals are those of integers (`Decimal.IsInt.add` and its siblings), as far
  as the mantissa reaches;
* the way back rounds once (`Decimal.IsInt.toNumber`), which up to `2 ^ 53` changes nothing.

So each operation gives the number nearest to the result on integers (`apply_eq_ofInt`).  A sum of
many numbers adds them up from the left: it is exact if every partial sum is
(`foldl_add_eq_ofInt`), and then the order of the numbers does not matter.
-/

namespace PipeQuery

namespace Decimal

variable {d e : Decimal} {x y : Int}

/-! ## From a number to a decimal -/

/-- Halving uses up a power of two, and nothing else happens. -/
theorem tradeHalves_mul_two_pow (count n : Nat) (tens : Int) :
    tradeHalves count (n * 2 ^ count) tens = (n, tens + count) := by
  induction count generalizing tens with
  | zero => rw [tradeHalves, Nat.pow_zero, Nat.mul_one, Int.natCast_zero, Int.add_zero]
  | succ count ih =>
    have hdouble : n * 2 ^ (count + 1) = n * 2 ^ count * 2 := by rw [Nat.pow_succ, Nat.mul_assoc]
    rw [tradeHalves, hdouble, if_pos (Nat.mul_mod_left _ 2), Nat.mul_div_cancel _ Nat.two_pos, ih,
      Prod.mk.injEq]
    omega

/-- Doubling goes on while the mantissa has room. -/
theorem tradeDoubles_eq {count m : Nat} (h : m * 2 ^ count < mantissaLimit) (tens : Int) :
    tradeDoubles count m tens = some (m * 2 ^ count, tens - count) := by
  induction count generalizing m tens with
  | zero => rw [tradeDoubles, Nat.pow_zero, Nat.mul_one, Int.natCast_zero, Int.sub_zero]
  | succ count ih =>
    have hdouble : m * 2 ^ (count + 1) = 2 * m * 2 ^ count := by
      rw [Nat.pow_succ', ← Nat.mul_assoc, Nat.mul_comm m 2]
    rw [hdouble] at h ⊢
    have hroom : m < 2 ^ 95 := by
      have hle : 2 * m ≤ 2 * m * 2 ^ count := Nat.le_mul_of_pos_right _ (Nat.two_pow_pos count)
      rw [mantissaLimit] at h
      omega
    rw [tradeDoubles, if_pos hroom, ih h, Option.some.injEq, Prod.mk.injEq]
    omega

/-- The binary form of so many units: either it has a power of two too many, which stands in the
mantissa, or one that is missing there. -/
theorem binaryParts_of_units {m : Magnitude} {n : Nat} (h : m.steps = n * stepsPerUnit) :
    (∃ k : Nat, binaryParts m = (n * 2 ^ k, -(k : Int)))
      ∨ ∃ k q : Nat, n = q * 2 ^ k ∧ binaryParts m = (q, (k : Int)) := by
  have hunit : stepsPerUnit = 2 ^ 1074 := rfl
  rw [binaryParts]
  generalize hshift : m.steps.log2 - 52 = shift
  rcases Nat.le_total shift 1074 with hle | hle
  · refine .inl ⟨1074 - shift, Prod.ext ?_ (by dsimp only; omega)⟩
    have hsplit : stepsPerUnit = 2 ^ (1074 - shift) * 2 ^ shift := by
      rw [hunit, ← Nat.pow_add, Nat.sub_add_cancel hle]
    rw [h, hsplit, ← Nat.mul_assoc, Nat.mul_div_cancel _ (Nat.two_pow_pos shift)]
  · refine .inr ⟨shift - 1074, m.steps / 2 ^ shift, ?_, Prod.ext rfl (by dsimp only; omega)⟩
    have hdvd : 2 ^ shift ∣ m.steps := by
      have hspacing := m.spacing_dvd
      have hgap : m.steps.log2 + 1 - 53 = shift := by omega
      rwa [spacing, hgap] at hspacing
    refine Nat.eq_of_mul_eq_mul_right stepsPerUnit_pos ?_
    rw [← h, Nat.mul_assoc, hunit, ← Nat.pow_add, Nat.sub_add_cancel hle,
      Nat.div_mul_cancel hdvd]

/-- A mantissa without a power of ten is left as it is. -/
theorem ofScientific?_zero (m : Nat) : ofScientific? m 0 = some (m, 0) := rfl

/-- So many units are a decimal without digits behind the point. -/
theorem ofNumber?_of_units {m : Magnitude} {n : Nat} (h : m.steps = n * stepsPerUnit)
    (hn : n < mantissaLimit) (negative : Bool) :
    ofNumber? (.finite negative m) = some ⟨negative, n, 0⟩ := by
  by_cases hzero : m.steps = 0
  · have hn : n = 0 :=
      (Nat.mul_eq_zero.1 (h ▸ hzero)).resolve_right (Nat.ne_of_gt stepsPerUnit_pos)
    rw [ofNumber?, if_pos hzero, hn]
  · rw [ofNumber?, if_neg hzero]
    rcases binaryParts_of_units h with ⟨k, hparts⟩ | ⟨k, q, rfl, hparts⟩ <;> rw [hparts] <;>
      dsimp only
    · cases k with
      | zero =>
        rw [Nat.pow_zero, Nat.mul_one]
        rfl
      | succ k =>
        have hcount : (- -((k + 1 : Nat) : Int)).toNat = k + 1 := by omega
        rw [if_pos (by omega), hcount, tradeHalves_mul_two_pow, Int.add_left_neg, Option.bind_some,
          ofScientific?_zero, Option.map_some]
    · rw [if_neg (by omega), Int.toNat_natCast, tradeDoubles_eq hn, Int.sub_self,
        Option.bind_some, ofScientific?_zero, Option.map_some]

/-! ## Integers among the decimals -/

/-- A sign and so many units. -/
def units (negative : Bool) (m : Nat) : Int := if negative then -m else m

theorem natAbs_units (negative : Bool) (m : Nat) : (units negative m).natAbs = m := by
  cases negative with
  | false => exact Int.natAbs_natCast m
  | true => exact (Int.natAbs_neg _).trans (Int.natAbs_natCast m)

theorem units_zero (negative : Bool) : units negative 0 = 0 := by cases negative <;> rfl

theorem units_eq_zero_iff {negative : Bool} {m : Nat} : units negative m = 0 ↔ m = 0 := by
  rw [← Int.natAbs_eq_zero, natAbs_units]

theorem units_natAbs (x : Int) : units (decide (x < 0)) x.natAbs = x := by
  by_cases hneg : x < 0
  · have hunits : units true x.natAbs = -(x.natAbs : Int) := rfl
    rw [decide_eq_true hneg, hunits]
    omega
  · have hunits : units false x.natAbs = x.natAbs := rfl
    rw [decide_eq_false hneg, hunits]
    omega

theorem units_not (negative : Bool) (m : Nat) : units (!negative) m = -units negative m := by
  cases negative with
  | false => rfl
  | true => exact (Int.neg_neg _).symm

theorem units_mul (s t : Bool) (m n : Nat) :
    units s m * units t n = units (s != t) (m * n) := by
  have hproduct : ((m * n : Nat) : Int) = m * n := Int.natCast_mul m n
  cases s with
  | false =>
    cases t with
    | false => exact hproduct.symm
    | true => exact (Int.mul_neg _ _).trans (congrArg (- ·) hproduct.symm)
  | true =>
    cases t with
    | false => exact (Int.neg_mul _ _).trans (congrArg (- ·) hproduct.symm)
    | true => exact (Int.neg_mul_neg _ _).trans hproduct.symm

theorem units_tmod (s t : Bool) (m n : Nat) :
    (units s m).tmod (units t n) = units s (m % n) := by
  have hnat : (m : Int).tmod n = (m % n : Nat) := (Int.ofNat_tmod m n).symm
  cases s <;> cases t <;> simp [units, Int.tmod_neg, Int.neg_tmod, hnat]

/-- A decimal without digits behind the point, which is the integer. -/
def IsInt (d : Decimal) (x : Int) : Prop :=
  ∃ negative m, d = ⟨negative, m, 0⟩ ∧ x = units negative m

theorem isInt_units (negative : Bool) (m : Nat) : IsInt ⟨negative, m, 0⟩ (units negative m) :=
  ⟨negative, m, rfl, rfl⟩

theorem isInt_zero (h : x = 0) : IsInt ⟨false, 0, 0⟩ x := ⟨false, 0, rfl, h⟩

/-- An integer up to the limit of a mantissa is an integer as a decimal. -/
theorem ofNumber?_of_isInt {k : Number} (h : k.IsInt x) (hx : x.natAbs < mantissaLimit) :
    ∃ d, ofNumber? k = some d ∧ d.IsInt x := by
  obtain ⟨negative, m, rfl, hsteps, hsign⟩ := h.exists_units
  exact ⟨_, ofNumber?_of_units hsteps hx negative, negative, x.natAbs, rfl, hsign⟩

/-! ## Operations on integers -/

/-- What fits without a digit behind the point stays as it is. -/
theorem fit?_zero {m : Nat} (h : m < mantissaLimit) (negative : Bool) :
    fit? negative m 0 = some ⟨negative, m, 0⟩ := by
  have hround : roundHalfEven m (10 ^ 0) = m := by
    have hmul := roundHalfEven_mul_left m Nat.one_pos
    rwa [Nat.one_mul] at hmul
  rw [fit?, fit?.go, hround, if_pos h]

theorem IsInt.neg (h : d.IsInt x) : d.neg.IsInt (-x) := by
  obtain ⟨negative, m, rfl, rfl⟩ := h
  exact ⟨!negative, m, rfl, (units_not negative m).symm⟩

theorem IsInt.signedAt_zero (h : d.IsInt x) : d.signedAt 0 = x := by
  obtain ⟨negative, m, rfl, rfl⟩ := h
  rw [signedAt, units, Nat.sub_zero, Nat.pow_zero, Nat.mul_one]

theorem IsInt.add (hd : d.IsInt x) (he : e.IsInt y) (h : (x + y).natAbs < mantissaLimit) :
    ∃ f, add? d e = some f ∧ f.IsInt (x + y) := by
  have hsigned := hd.signedAt_zero
  have hsigned' := he.signedAt_zero
  obtain ⟨s, m, rfl, rfl⟩ := hd
  obtain ⟨t, n, rfl, rfl⟩ := he
  rw [add?]
  dsimp only
  split
  next hm =>
    refine ⟨_, rfl, t, n, rfl, ?_⟩
    rw [hm, units_zero, Int.zero_add]
  next =>
    split
    next hn =>
      refine ⟨_, rfl, s, m, rfl, ?_⟩
      rw [hn, units_zero, Int.add_zero]
    next =>
      have hscale : Nat.max 0 0 = 0 := rfl
      rw [hscale, hsigned, hsigned']
      exact ⟨_, fit?_zero h _, _, _, rfl, (units_natAbs _).symm⟩

theorem IsInt.sub (hd : d.IsInt x) (he : e.IsInt y) (h : (x - y).natAbs < mantissaLimit) :
    ∃ f, sub? d e = some f ∧ f.IsInt (x - y) := by
  rw [Int.sub_eq_add_neg] at h ⊢
  exact hd.add he.neg h

theorem IsInt.mul (hd : d.IsInt x) (he : e.IsInt y) (h : (x * y).natAbs < mantissaLimit) :
    ∃ f, mul? d e = some f ∧ f.IsInt (x * y) := by
  obtain ⟨s, m, rfl, rfl⟩ := hd
  obtain ⟨t, n, rfl, rfl⟩ := he
  rw [units_mul] at h ⊢
  rw [natAbs_units] at h
  rw [mul?]
  dsimp only
  split
  next hzero => exact ⟨_, rfl, isInt_zero (units_eq_zero_iff.2 (Nat.mul_eq_zero.2 hzero))⟩
  next => exact ⟨_, fit?_zero h _, isInt_units _ _⟩

/-- A quotient without remainder needs no development. -/
theorem IsInt.div (hd : d.IsInt x) (he : e.IsInt y) (hx : x.natAbs < mantissaLimit)
    (hy : y ≠ 0) (hdvd : y ∣ x) : ∃ f, div? d e = some f ∧ f.IsInt (x / y) := by
  obtain ⟨s, m, rfl, rfl⟩ := hd
  obtain ⟨t, n, rfl, rfl⟩ := he
  have hn : n ≠ 0 := mt units_eq_zero_iff.2 hy
  rw [← Int.natAbs_dvd_natAbs, natAbs_units, natAbs_units] at hdvd
  obtain ⟨q, rfl⟩ := hdvd
  have hquotient : units s (n * q) / units t n = units (s != t) q := by
    have hsign : (t != (s != t)) = s := by cases s <;> cases t <;> rfl
    have hproduct := units_mul t (s != t) n q
    rw [hsign] at hproduct
    rw [← hproduct, Int.mul_ediv_cancel_left _ hy]
  rw [hquotient, div?]
  dsimp only
  rw [if_neg hn]
  split
  next hzero =>
    have hq : q = 0 := (Nat.mul_eq_zero.1 hzero).resolve_left hn
    exact ⟨_, rfl, isInt_zero (units_eq_zero_iff.2 hq)⟩
  next =>
    have hfit : q < mantissaLimit := by
      rw [natAbs_units] at hx
      exact Nat.lt_of_le_of_lt (Nat.le_mul_of_pos_left q (Nat.pos_of_ne_zero hn)) hx
    have heven : develop? n 64 q 0 0 false = some ⟨q, 0, false⟩ := by
      rw [develop?, if_pos rfl, if_pos (Int.le_refl 0)]
    rw [Nat.mul_div_cancel_left q (Nat.pos_of_ne_zero hn), Nat.mul_mod_right, Int.sub_self, heven,
      Option.bind_some]
    dsimp only
    rw [if_pos hfit, if_neg Bool.false_ne_true]
    exact ⟨_, rfl, isInt_units _ _⟩

theorem IsInt.rem (hd : d.IsInt x) (he : e.IsInt y) (hy : y ≠ 0) :
    ∃ f, rem? d e = some f ∧ f.IsInt (x.tmod y) := by
  obtain ⟨s, m, rfl, rfl⟩ := hd
  obtain ⟨t, n, rfl, rfl⟩ := he
  have hn : n ≠ 0 := mt units_eq_zero_iff.2 hy
  rw [units_tmod, rem?]
  dsimp only
  rw [if_neg hn]
  split
  next hm =>
    have hzero : m % n = 0 := by rw [hm, Nat.zero_mod]
    exact ⟨_, rfl, isInt_zero (units_eq_zero_iff.2 hzero)⟩
  next =>
    have hscale : Nat.max 0 0 = 0 := rfl
    rw [hscale, Nat.sub_zero, Nat.pow_zero, Nat.mul_one, Nat.mul_one]
    split
    next heq =>
      have hzero : m % n = 0 := by rw [heq, Nat.mod_self]
      exact ⟨_, rfl, isInt_zero (units_eq_zero_iff.2 hzero)⟩
    next =>
      split
      next hlt =>
        rw [Nat.mod_eq_of_lt hlt]
        exact ⟨_, rfl, isInt_units s m⟩
      next => exact ⟨_, rfl, isInt_units s (m % n)⟩

/-! ## Back to a number -/

theorem neg_ofQuotient (negative : Bool) (num den : Nat) :
    (Number.ofQuotient negative num den).neg = Number.ofQuotient (!negative) num den := by
  rw [Number.ofQuotient, Number.ofQuotient]
  cases Magnitude.ofQuotient? num den <;> rfl

theorem units_neg_iff {negative : Bool} {m : Nat} (hm : m ≠ 0) :
    units negative m < 0 ↔ negative = true := by
  cases negative with
  | false => exact iff_of_false (Int.not_lt.2 (Int.natCast_nonneg m)) Bool.false_ne_true
  | true => exact iff_of_true (Int.neg_neg_of_pos (Int.natCast_pos.2 (Nat.pos_of_ne_zero hm))) rfl

/-- The way back rounds an integer once, and zero loses its sign. -/
theorem IsInt.toNumber (h : d.IsInt x) : d.toNumber = .ofInt x := by
  obtain ⟨negative, m, rfl, rfl⟩ := h
  rw [Decimal.toNumber]
  dsimp only
  rw [if_pos rfl]
  split
  next hm => rw [hm, units_zero, Number.ofInt_zero]
  next hm =>
    have hsign : decide (units negative m < 0) = negative := by
      rw [Bool.eq_iff_iff, decide_eq_true_iff]
      exact units_neg_iff hm
    rw [Number.ofInt, hsign, natAbs_units, Number.ofNat, neg_ofQuotient]
    cases negative <;> rfl

end Decimal

namespace Arithmetic

variable {op : Arithmetic} {a b : Number} {x y z : Int}

/-- Where an operation of decimals is one of integers, its result is the number nearest to the
result on integers. -/
theorem apply_eq_ofInt (ha : a.IsInt x) (hb : b.IsInt y) (hx : x.natAbs < Decimal.mantissaLimit)
    (hy : y.natAbs < Decimal.mantissaLimit)
    (hop : ∀ {d e : Decimal}, d.IsInt x → e.IsInt y →
      ∃ f, op.onDecimals? d e = some f ∧ f.IsInt z) : op.apply a b = .ofInt z := by
  obtain ⟨d, hd, hdx⟩ := Decimal.ofNumber?_of_isInt ha hx
  obtain ⟨e, he, hey⟩ := Decimal.ofNumber?_of_isInt hb hy
  obtain ⟨f, hf, hfz⟩ := hop hdx hey
  have hvia : (do
      let d ← Decimal.ofNumber? a
      let e ← Decimal.ofNumber? b
      op.onDecimals? d e) = some f := by
    rw [hd, he]
    exact hf
  rw [apply, hvia]
  exact hfz.toNumber

end Arithmetic

/-! ## Sums -/

namespace Number

variable {a b : Number} {ns ms : List Number} {x y total : Int} {xs ys : List Int}

/-- No sum of a beginning of the list, added to what is there already, leaves `± 2 ^ 53`. -/
def PartialSumsExact (total : Int) (xs : List Int) : Prop :=
  ∀ start, start <+: xs → (total + start.sum).natAbs ≤ 2 ^ 53

instance : Decidable (PartialSumsExact total xs) :=
  decidable_of_iff (∀ start ∈ xs.inits, (total + start.sum).natAbs ≤ 2 ^ 53)
    (forall_congr' fun start => by rw [List.mem_inits])

theorem PartialSumsExact.tail (h : PartialSumsExact total (x :: xs)) :
    PartialSumsExact (total + x) xs := by
  intro start hstart
  have hsum := h (x :: start) ((List.prefix_cons_inj x).2 hstart)
  rwa [List.sum_cons, ← Int.add_assoc] at hsum

theorem PartialSumsExact.total_le (h : PartialSumsExact total xs) : total.natAbs ≤ 2 ^ 53 := by
  have hsum := h [] List.nil_prefix
  rwa [List.sum_nil, Int.add_zero] at hsum

/-- Adding the next integer to an exact total gives an exact total, though the integer itself may
be larger than either. -/
theorem add_eq_ofInt_of_partialSumsExact (ha : a.IsInt x) (h : PartialSumsExact total (x :: xs)) :
    Arithmetic.add.apply (ofInt total) a = ofInt (total + x) := by
  have htotal := h.total_le
  have hnext := h.tail.total_le
  have hlimit : Decimal.mantissaLimit = 2 ^ 96 := rfl
  exact Arithmetic.apply_eq_ofInt (isInt_ofInt htotal) ha (by omega) (by omega)
    fun hd he => hd.add he (by omega)

/-- A sum from the left stays exact as long as every partial sum is. -/
theorem foldl_add_eq_ofInt (hns : List.Forall₂ IsInt ns xs) (h : PartialSumsExact total xs) :
    ns.foldl (fun sum n => Arithmetic.add.apply sum n) (ofInt total)
      = ofInt (total + xs.sum) := by
  induction hns generalizing total with
  | nil => rw [List.foldl_nil, List.sum_nil, Int.add_zero]
  | cons hn hns ih =>
    rw [List.foldl_cons, add_eq_ofInt_of_partialSumsExact hn h, ih h.tail, List.sum_cons,
      Int.add_assoc]

theorem sumNumbers_eq_ofInt (hns : List.Forall₂ IsInt ns xs) (h : PartialSumsExact 0 xs) :
    sumNumbers ns = ofInt xs.sum := by
  rw [sumNumbers, ← ofInt_zero, foldl_add_eq_ofInt hns h, Int.zero_add]

/-- A list of numbers determines the integers that they are. -/
theorem filterMap_floor? (hns : List.Forall₂ IsInt ns xs) : ns.filterMap floor? = xs := by
  induction hns with
  | nil => rfl
  | cons hn hns ih => rw [List.filterMap_cons_some hn.floor?, ih]

/-- Reordered integers have the same sum. -/
theorem sum_eq_of_perm (hperm : ms.Perm ns) (hms : List.Forall₂ IsInt ms ys)
    (hns : List.Forall₂ IsInt ns xs) : ys.sum = xs.sum := by
  rw [← filterMap_floor? hms, ← filterMap_floor? hns]
  exact (hperm.filterMap floor?).sum_eq

theorem applyTo_sum [Draws] (ns : List Number) :
    Operator.sum.applyTo (.array (ns.map .number)) = .number (sumNumbers ns) := by
  rw [Operator.applyTo, Operator.eval?, Value.numbers?_map]
  rfl

/-- Arithmetic on integers up to `2 ^ 53` is exact where the result is one of them.  A sum whose
partial sums are all among them is exact, in whatever order that keeps them there. -/
theorem exact_on_integers [Draws] :
    (∀ {a b : Number} {x y : Int}, a.IsInt x → b.IsInt y →
      x.natAbs ≤ 2 ^ 53 → y.natAbs ≤ 2 ^ 53 →
        ((x + y).natAbs ≤ 2 ^ 53 → (Arithmetic.add.apply a b).IsInt (x + y))
          ∧ ((x - y).natAbs ≤ 2 ^ 53 → (Arithmetic.sub.apply a b).IsInt (x - y))
          ∧ ((x * y).natAbs ≤ 2 ^ 53 → (Arithmetic.mul.apply a b).IsInt (x * y))
          ∧ (y ≠ 0 → y ∣ x → (Arithmetic.div.apply a b).IsInt (x / y))
          ∧ (y ≠ 0 → (Arithmetic.rem.apply a b).IsInt (x.tmod y)))
      ∧ ∀ {ns : List Number} {xs : List Int}, List.Forall₂ IsInt ns xs → PartialSumsExact 0 xs →
        ∃ total : Number, total.IsInt xs.sum
          ∧ Operator.sum.applyTo (.array (ns.map .number)) = .number total
          ∧ ∀ {ms : List Number} {ys : List Int}, ms.Perm ns → List.Forall₂ IsInt ms ys →
            PartialSumsExact 0 ys →
              Operator.sum.applyTo (.array (ms.map .number)) = .number total := by
  have hlimit : Decimal.mantissaLimit = 2 ^ 96 := rfl
  refine ⟨?_, ?_⟩
  · intro a b x y ha hb hx hy
    have happly {op : Arithmetic} {z : Int} (hz : z.natAbs ≤ 2 ^ 53)
        (hop : ∀ {d e : Decimal}, d.IsInt x → e.IsInt y →
          ∃ f, op.onDecimals? d e = some f ∧ f.IsInt z) : (op.apply a b).IsInt z := by
      rw [Arithmetic.apply_eq_ofInt ha hb (by omega) (by omega) hop]
      exact isInt_ofInt hz
    have hquotient : (x / y).natAbs ≤ x.natAbs := Int.natAbs_ediv_le_natAbs x y
    have hremainder : (x.tmod y).natAbs ≤ x.natAbs := by
      rw [Int.natAbs_tmod]
      exact Nat.mod_le _ _
    exact ⟨fun hz => happly hz fun hd he => hd.add he (by omega),
      fun hz => happly hz fun hd he => hd.sub he (by omega),
      fun hz => happly hz fun hd he => hd.mul he (by omega),
      fun hne hdvd => happly (Nat.le_trans hquotient hx) fun hd he =>
        hd.div he (by omega) hne hdvd,
      fun hne => happly (Nat.le_trans hremainder hx) fun hd he => hd.rem he hne⟩
  · intro ns xs hns hsums
    have htotal : xs.sum.natAbs ≤ 2 ^ 53 := by
      have hwhole := hsums xs (List.prefix_refl xs)
      rwa [Int.zero_add] at hwhole
    refine ⟨ofInt xs.sum, isInt_ofInt htotal, ?_, ?_⟩
    · rw [applyTo_sum, sumNumbers_eq_ofInt hns hsums]
    · intro ms ys hperm hms hsums'
      rw [applyTo_sum, sumNumbers_eq_ofInt hms hsums', sum_eq_of_perm hperm hms hns]

/-- A dividend and a divisor of different signs, and a sum that starts at the bound. -/
theorem exact_on_integers_bound :
    ((Arithmetic.add.apply (ofInt 14) (ofInt (-4))).IsInt 10
        ∧ (Arithmetic.sub.apply (ofInt 14) (ofInt (-4))).IsInt 18
        ∧ (Arithmetic.mul.apply (ofInt 14) (ofInt (-4))).IsInt (-56)
        ∧ (Arithmetic.rem.apply (ofInt 14) (ofInt (-4))).IsInt 2)
      ∧ (Arithmetic.div.apply (ofInt (-12)) (ofInt 4)).IsInt (-3)
      ∧ ∃ total : Number, total.IsInt (2 ^ 53)
        ∧ Operator.sum.applyTo (.array ([ofInt (2 ^ 53), ofInt (-1), ofInt 1].map .number))
          = .number total
        ∧ Operator.sum.applyTo (.array ([ofInt (-1), ofInt 1, ofInt (2 ^ 53)].map .number))
          = .number total := by
  obtain ⟨harithmetic, hsum⟩ := exact_on_integers
  have hint {x : Int} (h : x.natAbs ≤ 2 ^ 53) : (ofInt x).IsInt x := isInt_ofInt h
  obtain ⟨hadd, hsub, hmul, -, hrem⟩ :=
    harithmetic (hint (x := 14) (by decide)) (hint (x := -4) (by decide)) (by decide) (by decide)
  obtain ⟨-, -, -, hdiv, -⟩ :=
    harithmetic (hint (x := -12) (by decide)) (hint (x := 4) (by decide)) (by decide) (by decide)
  have hstart : List.Forall₂ IsInt [ofInt (2 ^ 53), ofInt (-1), ofInt 1] [2 ^ 53, -1, 1] :=
    .cons (hint (by decide)) (.cons (hint (by decide)) (.cons (hint (by decide)) .nil))
  have hlast : List.Forall₂ IsInt [ofInt (-1), ofInt 1, ofInt (2 ^ 53)] [-1, 1, 2 ^ 53] :=
    .cons (hint (by decide)) (.cons (hint (by decide)) (.cons (hint (by decide)) .nil))
  have hperm : [ofInt (-1), ofInt 1, ofInt (2 ^ 53)].Perm [ofInt (2 ^ 53), ofInt (-1), ofInt 1] :=
    List.perm_append_singleton _ [_, _]
  obtain ⟨total, htotal, hfirst, hreordered⟩ := hsum hstart (by decide)
  exact ⟨⟨hadd (by decide), hsub (by decide), hmul (by decide), hrem (by decide)⟩,
    hdiv (by decide) (by decide), total, htotal, hfirst, hreordered hperm hlast (by decide)⟩

end Number

end PipeQuery
