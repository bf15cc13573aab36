import PipeQuery.Format.Json.Scalar
import PipeQuery.Proofs.Number.Numeral
import PipeQuery.Value.Json

/-!
# Printed strings and numbers read back

`stringAt_flatMap_jsonChar` says that an escaped text is read up to the quote behind
it, and `numberAt_numeral` that a plain numeral is read up to what separates values
(`Ends`).  Neither print holds a control character.
-/

namespace PipeQuery.Json

variable {c : Char} {cs text rest after : List Char}

/-! ## Control characters -/

/-- Text without control characters. -/
def NoControl (cs : List Char) : Prop := ∀ c ∈ cs, isControl c = false

theorem noControl_nil : NoControl [] := List.forall_mem_nil _

theorem noControl_of_all {cs : List Char} (h : cs.all (fun c => !isControl c) = true) :
    NoControl cs := by
  simpa [NoControl] using h

theorem NoControl.cons {cs : List Char} (hc : isControl c = false) (h : NoControl cs) :
    NoControl (c :: cs) :=
  List.forall_mem_cons.2 ⟨hc, h⟩

theorem NoControl.append {cs ds : List Char} (h : NoControl cs) (h' : NoControl ds) :
    NoControl (cs ++ ds) :=
  List.forall_mem_append.2 ⟨h, h'⟩

/-! ## Strings -/

theorem stringAt_escape (hc : escapeAt cs = .ok (c, rest)) (h : stringAt rest = .ok (text, after)) :
    stringAt ('\\' :: cs) = .ok (c :: text, after) := by
  rw [stringAt]
  split
  · rename_i hfault
    rw [hc] at hfault
    cases hfault
  · rename_i c' rest' hok
    rw [hc] at hok
    cases hok
    rw [h]
    rfl

theorem stringAt_plain (hquote : c ≠ '"') (hback : c ≠ '\\') (hc : 0x20 ≤ c.toNat)
    (h : stringAt rest = .ok (text, after)) : stringAt (c :: rest) = .ok (c :: text, after) := by
  have hnot : ¬ c.toNat < 0x20 := by omega
  rw [stringAt]
  · simp only [hnot, if_false, h]
    rfl
  · exact hquote
  · exact hback

/-- The code points of controls are spelled by four digits. -/
theorem fourHexDigits_spec : ∀ n < 160, (fourHexDigits n).length = 4
    ∧ numberIn? 16 (fourHexDigits n) = some n
    ∧ (fourHexDigits n).all (fun c => !isControl c) = true := by
  decide +kernel

theorem unicodeAt_fourHexDigits (hc : c.toNat < 160) (rest : List Char) :
    unicodeAt (fourHexDigits c.toNat ++ rest) = .ok (c, rest) := by
  obtain ⟨hlength, hnumber, -⟩ := fourHexDigits_spec c.toNat hc
  have hhex : hexAt (fourHexDigits c.toNat ++ rest) = .ok (c.toNat, rest) := by
    match hd : fourHexDigits c.toNat, hlength with
    | [a₁, a₂, a₃, a₄], _ =>
      rw [hd] at hnumber
      simp only [hexAt, List.cons_append, List.nil_append, hnumber]
  have hlow : ¬ (0xDC00 ≤ c.toNat ∧ c.toNat ≤ 0xDFFF) := by omega
  have hhigh : ¬ (0xD800 ≤ c.toNat ∧ c.toNat ≤ 0xDBFF) := by omega
  rw [unicodeAt, hhex]
  simp only [bind, Except.bind, hlow, hhigh, if_false, Char.ofNat_toNat]
  rfl

theorem toNat_lt_of_isControl (h : isControl c = true) : c.toNat < 160 := by
  simp only [isControl, Bool.or_eq_true, Bool.and_eq_true, decide_eq_true_eq] at h
  omega

theorem toNat_le_of_not_isControl (h : isControl c = false) : 0x20 ≤ c.toNat := by
  simp only [isControl, Bool.or_eq_false_iff, decide_eq_false_iff_not] at h
  omega

/-- A printed character is read as that character. -/
theorem stringAt_jsonChar (c : Char) (h : stringAt rest = .ok (text, after)) :
    stringAt (jsonChar c ++ rest) = .ok (c :: text, after) := by
  unfold jsonChar
  split
  · exact stringAt_escape rfl h
  · exact stringAt_escape rfl h
  · exact stringAt_escape rfl h
  · exact stringAt_escape rfl h
  · exact stringAt_escape rfl h
  · rename_i hquote hback _ _ _
    split
    · rename_i hcontrol
      have hescape : escapeAt ('u' :: (fourHexDigits c.toNat ++ rest)) = .ok (c, rest) :=
        unicodeAt_fourHexDigits (toNat_lt_of_isControl hcontrol) rest
      exact stringAt_escape hescape h
    · rename_i hcontrol
      have hlow : 0x20 ≤ c.toNat := toNat_le_of_not_isControl (by simpa using hcontrol)
      exact stringAt_plain hquote hback hlow h

/-- A printed text is read up to the quote behind it. -/
theorem stringAt_flatMap_jsonChar (cs rest : List Char) :
    stringAt (cs.flatMap jsonChar ++ '"' :: rest) = .ok (cs, rest) := by
  induction cs with
  | nil =>
    rw [List.flatMap_nil, List.nil_append, stringAt]
  | cons c cs ih =>
    rw [List.flatMap_cons, List.append_assoc]
    exact stringAt_jsonChar c ih

/-- A character is printed without controls. -/
theorem noControl_jsonChar (c : Char) : NoControl (jsonChar c) := by
  unfold jsonChar
  split
  · exact noControl_of_all rfl
  · exact noControl_of_all rfl
  · exact noControl_of_all rfl
  · exact noControl_of_all rfl
  · exact noControl_of_all rfl
  · split
    · rename_i hcontrol
      obtain ⟨-, -, hdigits⟩ := fourHexDigits_spec c.toNat (toNat_lt_of_isControl hcontrol)
      exact .cons rfl (.cons rfl (noControl_of_all hdigits))
    · rename_i hcontrol
      exact .cons (by simpa using hcontrol) noControl_nil

theorem noControl_jsonString (s : String) : NoControl (jsonString s) := by
  have hchars : NoControl (s.toList.flatMap jsonChar) := by
    intro d hd
    obtain ⟨c, -, hd⟩ := List.mem_flatMap.1 hd
    exact noControl_jsonChar c d hd
  exact .cons rfl (hchars.append (.cons rfl noControl_nil))

/-! ## Numbers -/

/-- What stands behind a value: nothing, a comma or the end of a container. -/
def Ends (rest : List Char) : Prop := ∀ c ∈ rest.head?, c = ',' ∨ c = ']' ∨ c = '\x7d'

theorem ends_nil : Ends [] := by simp [Ends]

theorem Ends.isDigit (h : Ends rest) : ∀ c ∈ rest.head?, c.isDigit = false := by
  intro c hc
  rcases h c hc with rfl | rfl | rfl <;> rfl

theorem wholeAt_numeral (x : Numeral) (hx : x.NoNeedlessZero)
    (hrest : ∀ c ∈ rest.head?, c.isDigit = false) :
    wholeAt (x.whole ++ rest) = .ok (x.whole, rest) := by
  rcases hx with hzero | hhead
  · have hany : rest.head?.any Char.isDigit = false := by
      cases hr : rest.head? with
      | none => rfl
      | some c => exact hrest c (by simp [hr])
    rw [hzero]
    simp only [wholeAt, List.cons_append, List.nil_append, hany, Bool.false_eq_true, if_false]
  · obtain ⟨c, ws, hwhole, hc⟩ := x.exists_whole_eq
    have hws : ∀ d ∈ ws, d.isDigit = true := fun d hd => x.whole_digits d (by simp [hwhole, hd])
    rw [hwhole] at hhead ⊢
    rw [List.cons_append, wholeAt]
    · simp only [hc, if_true, takeWhile_run hws hrest,
        dropWhile_run hws hrest]
    · intro hzero
      exact hhead (by rw [hzero]; rfl)

theorem fractionAt_numeral (x : Numeral) (hrest : Ends rest) :
    fractionAt (x.fractionChars ++ rest) = .ok (x.fraction, rest) := by
  unfold Numeral.fractionChars
  split
  · rename_i hnil
    rw [hnil, List.nil_append, fractionAt]
    rintro tail rfl
    rcases hrest '.' rfl with h | h | h <;> cases h
  · rename_i hne
    have hempty : x.fraction.isEmpty = false := by simpa using hne
    rw [List.cons_append, fractionAt]
    simp only [takeWhile_run x.fraction_digits hrest.isDigit,
      dropWhile_run x.fraction_digits hrest.isDigit, hempty, Bool.false_eq_true,
      if_false]

theorem exponentAt_ends (hrest : Ends rest) : exponentAt rest = .ok (some 0, rest) := by
  cases rest with
  | nil => rfl
  | cons c rest =>
    have hmark : ¬ (c = 'e' ∨ c = 'E') := by
      rcases hrest c rfl with rfl | rfl | rfl <;> decide
    simp only [exponentAt, hmark, if_false]

theorem head?_fractionChars (x : Numeral) (hrest : Ends rest) :
    ∀ c ∈ (x.fractionChars ++ rest).head?, c.isDigit = false := by
  unfold Numeral.fractionChars
  split
  · exact hrest.isDigit
  · intro c hc
    cases hc
    rfl

/-- A plain numeral is read as the magnitude it is nearest to, with the sign that was read. -/
theorem numberAt_numeral (negative : Bool) {x : Numeral} {m : Magnitude} (hx : x.NoNeedlessZero)
    (hm : x.digits.magnitude? = some m) (hrest : Ends rest) :
    numberAt negative (x.chars ++ rest) = .ok (.finite negative m, rest) := by
  have hnumber : Number.ofDigits negative x.digits = .finite negative m := by
    simp [Number.ofDigits, hm, Number.ofMagnitude?]
  have hdigits : (⟨Nat.ofDigitChars 10 (x.whole ++ x.fraction) 0,
      (0 : Int) - (x.fraction.length : Int)⟩ : Digits) = x.digits := by
    rw [Numeral.digits, Int.zero_sub]
  rw [numberAt, Numeral.chars, List.append_assoc,
    wholeAt_numeral x hx (head?_fractionChars x hrest)]
  simp only [bind, Except.bind, fractionAt_numeral x hrest, exponentAt_ends hrest, hdigits, hnumber]
  rfl

theorem noControl_numeral (x : Numeral) : NoControl x.chars := by
  have hdigit : ∀ c : Char, c.isDigit = true → isControl c = false := by
    intro c hc
    obtain ⟨hlow, hhigh⟩ := toNat_of_isDigit hc
    simp only [isControl, Bool.or_eq_false_iff, Bool.and_eq_false_iff, decide_eq_false_iff_not]
    omega
  have hwhole : NoControl x.whole := fun c hc => hdigit c (x.whole_digits c hc)
  have hfraction : NoControl x.fraction := fun c hc => hdigit c (x.fraction_digits c hc)
  refine hwhole.append ?_
  unfold Numeral.fractionChars
  split
  · exact noControl_nil
  · exact .cons rfl hfraction

end PipeQuery.Json
