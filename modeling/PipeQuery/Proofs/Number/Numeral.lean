import PipeQuery.Number.Text
import PipeQuery.Proofs.Number.Whole
import PipeQuery.Proofs.Text.Character
import Mathlib.Data.List.Induction

/-!
# Plain numerals

A plain numeral is a run of digits, perhaps with a point and more digits behind
it.  Every finite number is written as one by `Layout.plain`, after a minus
sign where it is negative, and so is every finite number in results.

*Writing.*  `exists_numeral` says that the shortest digits of a magnitude make a
plain numeral without needless zeros in front, and that the numeral is nearest
to the magnitude.  `chars_finite` says the same of numbers in results, where
only the sign of zero is lost.

*Reading.*  `read?_numeral` and `read?_neg_numeral` say that a plain numeral is
read as the number nearest to it.
-/

namespace PipeQuery

/-- A plain numeral: digits before the point and behind it. -/
structure Numeral where
  /-- The digits before the point. -/
  whole : List Char
  /-- The digits behind the point; without any there is no point. -/
  fraction : List Char
  /-- There is a digit before the point. -/
  whole_ne_nil : whole ≠ []
  /-- Digits stand before the point. -/
  whole_digits : ∀ c ∈ whole, c.isDigit = true
  /-- Digits stand behind the point. -/
  fraction_digits : ∀ c ∈ fraction, c.isDigit = true

/-- A minus sign for a negative number. -/
def signChars (negative : Bool) : List Char := if negative then ['-'] else []

namespace Numeral

/-- The point and the digits behind it. -/
def fractionChars (x : Numeral) : List Char :=
  if x.fraction = [] then [] else '.' :: x.fraction

/-- The numeral as text. -/
def chars (x : Numeral) : List Char := x.whole ++ x.fractionChars

/-- What the numeral stands for. -/
def digits (x : Numeral) : Digits :=
  ⟨Nat.ofDigitChars 10 (x.whole ++ x.fraction) 0, -(x.fraction.length : Int)⟩

/-- No zero stands in front of another digit before the point. -/
def NoNeedlessZero (x : Numeral) : Prop := x.whole = ['0'] ∨ x.whole.head? ≠ some '0'

theorem exists_whole_eq (x : Numeral) :
    ∃ c rest, x.whole = c :: rest ∧ c.isDigit = true := by
  obtain ⟨c, rest, h⟩ := List.exists_cons_of_ne_nil x.whole_ne_nil
  exact ⟨c, rest, h, x.whole_digits c (by simp [h])⟩

theorem exists_chars_eq (x : Numeral) : ∃ c rest, x.chars = c :: rest ∧ c.isDigit = true := by
  obtain ⟨c, rest, h, hc⟩ := x.exists_whole_eq
  exact ⟨c, rest ++ x.fractionChars, by simp [chars, h], hc⟩

end Numeral

/-! ## Digits of numbers -/

/-- The digits of a number above zero begin with another digit than zero. -/
theorem head?_decimalChars_ne {n : Nat} (h : n ≠ 0) : (decimalChars n).head? ≠ some '0' := by
  unfold decimalChars
  induction n using Nat.base_induction 10 (by decide) with
  | single m hm =>
    rw [Nat.toDigits_of_lt_base hm]
    have key : ∀ k < 10, k ≠ 0 → k.digitChar ≠ '0' := by decide
    simpa using key m hm h
  | digit m k hk hm ih =>
    rw [← Nat.toDigits_append_toDigits (by decide) hm hk, List.head?_append,
      List.head?_eq_some_head Nat.toDigits_ne_nil, Option.some_or,
      ← List.head?_eq_some_head Nat.toDigits_ne_nil]
    exact ih (Nat.ne_of_gt hm)

/-- A digit is written as itself. -/
theorem exists_digitChar_eq {c : Char} (h : c.isDigit = true) :
    ∃ k < 10, k.digitChar = c ∧ c.toNat - '0'.toNat = k := by
  obtain ⟨hlow, hhigh⟩ := toNat_of_isDigit h
  have key : ∀ k < 10, k.digitChar = Char.ofNat (48 + k) := by decide
  refine ⟨c.toNat - 48, by omega, ?_, rfl⟩
  rw [key _ (by omega), Nat.add_sub_cancel' hlow, Char.ofNat_toNat]

/-- Digits without a needless zero are how the number that they spell is written. -/
theorem decimalChars_ofDigitChars {ds : List Char} (hne : ds ≠ [])
    (hdigits : ∀ c ∈ ds, c.isDigit = true) (hzero : ds.head? = some '0' → ds = ['0']) :
    decimalChars (Nat.ofDigitChars 10 ds 0) = ds := by
  induction ds using List.reverseRecOn with
  | nil => exact absurd rfl hne
  | append_singleton ds d ih =>
    obtain ⟨hds, hd⟩ := List.forall_mem_append.1 hdigits
    obtain ⟨k, hk, rfl, hvalue⟩ := exists_digitChar_eq (hd d (List.mem_singleton.2 rfl))
    have hlast : decimalChars k = [k.digitChar] := Nat.toDigits_of_lt_base hk
    rw [Nat.ofDigitChars_append, Nat.ofDigitChars_cons, Nat.ofDigitChars_nil, hvalue]
    cases ds with
    | nil =>
      rw [Nat.ofDigitChars_nil, Nat.mul_zero, Nat.zero_add]
      exact hlast
    | cons c ds =>
      have hc : (c :: ds).head? ≠ some '0' := by
        intro hc
        have hsingle := congrArg List.length (hzero hc)
        simp at hsingle
      have hfront := ih (List.cons_ne_nil c ds) hds fun h => absurd h hc
      have hpos : 0 < Nat.ofDigitChars 10 (c :: ds) 0 := by
        refine Nat.pos_of_ne_zero fun h => hc ?_
        rw [← hfront, h]
        rfl
      unfold decimalChars at hfront hlast ⊢
      rw [← Nat.toDigits_append_toDigits (by decide) hpos hk, hfront, hlast]

/-! ## Writing -/

theorem isDigit_of_mem_zeros {n : Nat} {c : Char} (h : c ∈ List.replicate n '0') :
    c.isDigit = true := by
  rw [(List.mem_replicate.1 h).2]
  rfl

namespace Numeral

/-- Zeros behind the digits of a natural number. -/
def zerosBehind (c zeros : Nat) : Numeral where
  whole := decimalChars c ++ List.replicate zeros '0'
  fraction := []
  whole_ne_nil := by simp [decimalChars_ne_nil]
  whole_digits _ h :=
    (List.mem_append.1 h).elim isDigit_of_mem_decimalChars isDigit_of_mem_zeros
  fraction_digits := by simp

/-- The point among the digits of a natural number. -/
def pointAmong (c places : Nat) (h : places < (decimalChars c).length) : Numeral where
  whole := (decimalChars c).take ((decimalChars c).length - places)
  fraction := (decimalChars c).drop ((decimalChars c).length - places)
  whole_ne_nil := by
    intro hnil
    rcases List.take_eq_nil_iff.1 hnil with h₀ | h₀
    · omega
    · exact decimalChars_ne_nil c h₀
  whole_digits _ ha := isDigit_of_mem_decimalChars (List.mem_of_mem_take ha)
  fraction_digits _ ha := isDigit_of_mem_decimalChars (List.mem_of_mem_drop ha)

/-- The point and zeros in front of the digits of a natural number. -/
def zerosBefore (c zeros : Nat) : Numeral where
  whole := ['0']
  fraction := List.replicate zeros '0' ++ decimalChars c
  whole_ne_nil := by simp
  whole_digits := List.forall_mem_singleton.2 rfl
  fraction_digits _ h :=
    (List.mem_append.1 h).elim isDigit_of_mem_zeros isDigit_of_mem_decimalChars

theorem digits_zerosBehind (c zeros : Nat) :
    (zerosBehind c zeros).digits = ⟨c * 10 ^ zeros, 0⟩ := by
  have hval : Nat.ofDigitChars 10 (decimalChars c ++ List.replicate zeros '0') 0
      = c * 10 ^ zeros := by
    rw [Nat.ofDigitChars_append, ofDigitChars_decimalChars, Nat.ofDigitChars_replicate_zero,
      Nat.mul_comm]
  simp [digits, zerosBehind, hval]

theorem digits_pointAmong {c places : Nat} (h : places < (decimalChars c).length) :
    (pointAmong c places h).digits = ⟨c, -(places : Int)⟩ := by
  have hlen : ((decimalChars c).drop ((decimalChars c).length - places)).length = places := by
    rw [List.length_drop]
    omega
  simp only [digits, pointAmong, hlen, List.take_append_drop, ofDigitChars_decimalChars]

theorem digits_zerosBefore (c zeros : Nat) :
    (zerosBefore c zeros).digits = ⟨c, -((zeros + (decimalChars c).length : Nat) : Int)⟩ := by
  have hval : Nat.ofDigitChars 10 ('0' :: (List.replicate zeros '0' ++ decimalChars c)) 0 = c := by
    rw [Nat.ofDigitChars_cons, Nat.ofDigitChars_append, Nat.ofDigitChars_replicate_zero]
    exact ofDigitChars_decimalChars c
  simp only [digits, zerosBefore, List.cons_append, List.nil_append, hval, List.length_append,
    List.length_replicate]

end Numeral

/-- A numeral above zero with an exponent that is not negative is worth as much when the zeros
are written out. -/
theorem magnitude?_shift {c : Nat} {e : Int} {m : Magnitude} (hc : c ≠ 0) (he : 0 ≤ e)
    (h : (⟨c, e⟩ : Digits).magnitude? = some m) :
    (⟨c * 10 ^ e.toNat, 0⟩ : Digits).magnitude? = some m := by
  have hpow : c * 10 ^ e.toNat ≠ 0 := Nat.mul_ne_zero hc (by simp)
  simp only [Digits.magnitude?, hc, he, if_true, if_false] at h
  split at h
  · cases h
  · simpa [Digits.magnitude?, hpow] using h

/-- Digits above zero that are nearest to a magnitude are laid out as a plain numeral. -/
theorem positional_eq_numeral {d : Digits} {m : Magnitude} (hc : d.coefficient ≠ 0)
    (h : d.magnitude? = some m) :
    ∃ x : Numeral, x.NoNeedlessZero ∧ d.positional [] = x.chars
      ∧ x.digits.magnitude? = some m := by
  obtain ⟨c, e⟩ := d
  have hhead := head?_decimalChars_ne hc
  have hne := decimalChars_ne_nil c
  by_cases he : 0 ≤ e
  · refine ⟨.zerosBehind c e.toNat, Or.inr ?_, ?_, ?_⟩
    · simpa [Numeral.zerosBehind, List.head?_append, List.head?_eq_some_head hne] using hhead
    · simp [Numeral.zerosBehind, Digits.positional, Numeral.chars, Numeral.fractionChars, he]
    · rw [Numeral.digits_zerosBehind]
      exact magnitude?_shift hc he h
  · have hplaces : -((-e).toNat : Int) = e := by omega
    by_cases hp : (-e).toNat < (decimalChars c).length
    · refine ⟨.pointAmong c (-e).toNat hp, Or.inr ?_, ?_, ?_⟩
      · rw [Numeral.pointAmong, List.head?_take, if_neg (by omega)]
        exact hhead
      · -- a place behind the point is taken, so that the point is written
        have hfrac : (decimalChars c).drop ((decimalChars c).length - (-e).toNat) ≠ [] := by
          rw [ne_eq, List.drop_eq_nil_iff]
          omega
        simp only [Digits.positional, he, if_false, hp, if_true, Numeral.chars,
          Numeral.fractionChars, Numeral.pointAmong, hfrac]
      · rw [Numeral.digits_pointAmong, hplaces]
        exact h
    · refine ⟨.zerosBefore c ((-e).toNat - (decimalChars c).length), Or.inl rfl, ?_, ?_⟩
      · simp [Numeral.zerosBefore, Digits.positional, he, hp, Numeral.chars,
          Numeral.fractionChars, hne]
      · have hlen : (-e).toNat - (decimalChars c).length + (decimalChars c).length
            = (-e).toNat := by omega
        rw [Numeral.digits_zerosBefore, hlen, hplaces]
        exact h

/-- A whole numeral: the digits of a natural number. -/
def Numeral.ofNat (n : Nat) : Numeral where
  whole := decimalChars n
  fraction := []
  whole_ne_nil := decimalChars_ne_nil n
  whole_digits _ h := isDigit_of_mem_decimalChars h
  fraction_digits := by simp

@[simp] theorem Numeral.chars_ofNat (n : Nat) : (Numeral.ofNat n).chars = decimalChars n := by
  simp [Numeral.chars, Numeral.fractionChars, Numeral.ofNat]

@[simp] theorem Numeral.digits_ofNat (n : Nat) : (Numeral.ofNat n).digits = ⟨n, 0⟩ := by
  simp [Numeral.digits, Numeral.ofNat, ofDigitChars_decimalChars]

theorem Numeral.noNeedlessZero_ofNat (n : Nat) : (Numeral.ofNat n).NoNeedlessZero := by
  by_cases h : n = 0
  · subst h
    exact Or.inl rfl
  · exact Or.inr (head?_decimalChars_ne h)

/-- The shortest digits of a magnitude make a plain numeral that is nearest to it. -/
theorem exists_numeral (m : Magnitude) :
    ∃ x : Numeral, x.NoNeedlessZero ∧ (m.shortest .up).chars .plain = x.chars
      ∧ x.digits.magnitude? = some m := by
  have hplain : ∀ d : Digits, d.chars .plain = d.positional [] := by
    intro d
    simp [Digits.chars, Layout.isPositional, Layout.plain]
  rw [hplain]
  by_cases hz : m.steps = 0
  · have hs : m.shortest .up = ⟨0, 0⟩ := by simp [Magnitude.shortest, hz]
    have hm : m = .zero := by
      cases m
      cases hz
      rfl
    refine ⟨.ofNat 0, Numeral.noNeedlessZero_ofNat 0, ?_, ?_⟩
    · rw [hs, Numeral.chars_ofNat]
      simp [Digits.positional]
    · simp [hm, Digits.magnitude?]
  · have h := m.magnitude?_shortest .up
    refine positional_eq_numeral ?_ h
    intro hc
    simp only [Digits.magnitude?, hc, if_true, Option.some.injEq] at h
    rw [← h] at hz
    exact hz rfl

/-- A finite number in plain layout is a sign and a plain numeral nearest to it. -/
theorem charsIn_plain_finite (negative : Bool) (m : Magnitude) :
    ∃ x : Numeral, x.NoNeedlessZero
      ∧ (Number.finite negative m).charsIn .plain = signChars negative ++ x.chars
      ∧ x.digits.magnitude? = some m := by
  obtain ⟨x, hx, hchars, hval⟩ := exists_numeral m
  have hcharsIn : (m.shortest Layout.plain.tie).chars .plain = x.chars := hchars
  refine ⟨x, hx, ?_, hval⟩
  cases negative <;> simp [Number.charsIn, signChars, hcharsIn]

/-- A whole number in results is a sign, but for zero, and its digits. -/
theorem integerChars_signed (negative : Bool) (n : Nat) :
    integerChars (if negative then -(n : Int) else n)
      = signChars (negative && decide (n ≠ 0)) ++ decimalChars n := by
  cases negative with
  | false =>
    have hnn : ¬ (n : Int) < 0 := by omega
    simp [integerChars, hnn, signChars]
  | true =>
    by_cases hz : n = 0
    · simp [integerChars, signChars, hz]
    · have habs : (-(n : Int)).natAbs = n := by omega
      simp [integerChars, signChars, habs, hz]

/-- The digits of a whole magnitude are nearest to it. -/
theorem magnitude?_whole {m : Magnitude} (h : m.steps % stepsPerUnit = 0) :
    (⟨m.steps / stepsPerUnit, 0⟩ : Digits).magnitude? = some m := by
  have hsteps : m.steps / stepsPerUnit * stepsPerUnit = m.steps :=
    Nat.div_mul_cancel (Nat.dvd_of_mod_eq_zero h)
  by_cases hc : m.steps / stepsPerUnit = 0
  · have hz : m.steps = 0 := by rw [← hsteps, hc, Nat.zero_mul]
    have hm : m = .zero := by
      cases m
      cases hz
      rfl
    simp [hm, Digits.magnitude?, Magnitude.zero]
  · simp [Digits.magnitude?, hc, hsteps, Magnitude.ofQuotient?_steps]

/-- A finite number in results is a sign, but for zero, and a plain numeral nearest to it. -/
theorem chars_finite (negative : Bool) (m : Magnitude) :
    ∃ x : Numeral, x.NoNeedlessZero
      ∧ (Number.finite negative m).chars
        = signChars (negative && decide (m.steps ≠ 0)) ++ x.chars
      ∧ x.digits.magnitude? = some m := by
  by_cases hsmall : m.steps % stepsPerUnit = 0 ∧ m.steps < 10 ^ 15 * stepsPerUnit
  · -- a small integer is written as one
    refine ⟨.ofNat (m.steps / stepsPerUnit), Numeral.noNeedlessZero_ofNat _, ?_, ?_⟩
    · have hzero : m.steps / stepsPerUnit ≠ 0 ↔ m.steps ≠ 0 := by
        rw [not_iff_not, Nat.div_eq_zero_iff_lt stepsPerUnit_pos]
        constructor
        · intro h
          rw [← hsmall.1, Nat.mod_eq_of_lt h]
        · intro h
          rw [h]
          exact stepsPerUnit_pos
      simp only [Number.chars, Number.smallInteger?, hsmall, and_self, if_true,
        integerChars_signed, hzero, Numeral.chars_ofNat]
    · rw [Numeral.digits_ofNat]
      exact magnitude?_whole hsmall.1
  · obtain ⟨x, hx, hchars, hval⟩ := charsIn_plain_finite negative m
    refine ⟨x, hx, ?_, hval⟩
    have hz : m.steps ≠ 0 := by
      intro hz
      refine hsmall ⟨by rw [hz, Nat.zero_mod], ?_⟩
      rw [hz]
      exact Nat.mul_pos (by decide) stepsPerUnit_pos
    have hnone : (Number.finite negative m).smallInteger? = none := if_neg hsmall
    simp [Number.chars, hnone, hchars, hz]

/-! ## Reading -/

/-- A plain numeral is read as what it stands for. -/
theorem Digits.read?_numeral (x : Numeral) : Digits.read? x.chars = some x.digits := by
  have hpoint : ∀ c ∈ x.fractionChars.head?, c.isDigit = false := by
    intro c hc
    unfold Numeral.fractionChars at hc
    split at hc
    · simp at hc
    · simp only [List.head?_cons, Option.mem_some_iff] at hc
      subst hc
      rfl
  have hw := takeWhile_run x.whole_digits hpoint
  have hd := dropWhile_run x.whole_digits hpoint
  have hne : x.whole.isEmpty = false := by simpa using x.whole_ne_nil
  unfold Digits.read? Numeral.chars
  rw [hw, hd]
  by_cases hf : x.fraction = []
  · simp [Numeral.fractionChars, hf, hne, readExponent?, Numeral.digits]
  · have hft := List.takeWhile_eq_self_iff.2 x.fraction_digits
    have hfd := List.dropWhile_eq_nil_iff.2 x.fraction_digits
    simp [Numeral.fractionChars, hf, hne, hft, hfd, readExponent?, Numeral.digits]

theorem Number.read?_numeral (x : Numeral) :
    Number.read? x.chars = some (.ofDigits false x.digits) := by
  obtain ⟨c, rest, hx, hc⟩ := x.exists_chars_eq
  have hread := Digits.read?_numeral x
  rw [hx] at hread ⊢
  have hminus : c ≠ '-' := ne_of_isDigit hc (by decide)
  have hplus : c ≠ '+' := ne_of_isDigit hc (by decide)
  unfold Number.read?
  split
  rename_i heq
  split at heq
  · rename_i h
    exact absurd (List.cons.inj h).1 hminus
  · rename_i h
    exact absurd (List.cons.inj h).1 hplus
  · cases heq
    rw [hread]

theorem Number.read?_neg_numeral (x : Numeral) :
    Number.read? ('-' :: x.chars) = some (.ofDigits true x.digits) := by
  simp only [Number.read?, Digits.read?_numeral x]

/-- A signed plain numeral is read as the number nearest to it. -/
theorem Number.read?_signed_numeral (negative : Bool) (x : Numeral) :
    Number.read? (signChars negative ++ x.chars) = some (.ofDigits negative x.digits) := by
  cases negative with
  | false => exact read?_numeral x
  | true => exact read?_neg_numeral x

/-- A finite number in plain layout reads back. -/
theorem Number.read?_charsIn_plain (negative : Bool) (m : Magnitude) :
    Number.read? ((Number.finite negative m).charsIn .plain) = some (.finite negative m) := by
  obtain ⟨x, -, hchars, hval⟩ := charsIn_plain_finite negative m
  rw [hchars, read?_signed_numeral]
  simp [ofDigits, hval, ofMagnitude?]

end PipeQuery
