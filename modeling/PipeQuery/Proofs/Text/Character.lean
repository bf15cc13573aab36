import Mathlib.Data.List.TakeWhile
import PipeQuery.Text.Property

/-!
# Characters by their properties

Digits, letters and white space exclude each other, also where a property goes beyond
ASCII: a digit is an ASCII digit, and a letter is no white space anywhere
(`isBlank_of_isAlphabetic`).  Whatever a reader takes while a property holds is a run
of such characters (`takeWhile_run`), and ends before any other (`takeWhile_before`).
-/

namespace PipeQuery

variable {c : Char}

/-! ## Digits -/

/-- The code points of the digits. -/
theorem toNat_of_isDigit (h : c.isDigit = true) : 48 ≤ c.toNat ∧ c.toNat ≤ 57 := by
  simp only [Char.isDigit, Bool.and_eq_true, decide_eq_true_eq, UInt32.le_iff_toNat_le] at h
  exact h

theorem isAlphanumeric_of_isDigit (h : c.isDigit = true) : isAlphanumeric c = true := by
  have hc : c.toNat < 0x80 := by
    have := toNat_of_isDigit h
    omega
  simp [isAlphanumeric, isNumeric, hc, h]

theorem isBlank_of_isDigit (h : c.isDigit = true) : isBlank c = false := by
  obtain ⟨hlow, hhigh⟩ := toNat_of_isDigit h
  have hspace : c ≠ ' ' := by
    rintro rfl
    cases h
  have hc : c.toNat < 0x80 := by omega
  have hctl : ¬ c.toNat ≤ 13 := by omega
  simp [isBlank, hc, hspace, hctl]

/-- A digit is no other character. -/
theorem ne_of_isDigit {d : Char} (hc : c.isDigit = true) (hd : d.isDigit = false) : c ≠ d := by
  rintro rfl
  rw [hc] at hd
  cases hd

/-! ## Letters -/

/-- The code points of ASCII letters are above those of digits and white space. -/
theorem toNat_of_isAlpha (h : c.isAlpha = true) : 65 ≤ c.toNat := by
  have hcase : c.isUpper = true ∨ c.isLower = true := Bool.or_eq_true_iff.1 h
  rcases hcase with hupper | hlower
  · have hrange : 'A'.val ≤ c.val ∧ c.val ≤ 'Z'.val := of_decide_eq_true hupper
    exact UInt32.le_iff_toNat_le.1 hrange.1
  · have hlow : 'a'.val ≤ c.val := of_decide_eq_true (Bool.and_eq_true_iff.1 hlower).1
    exact Nat.le_trans (by decide) (UInt32.le_iff_toNat_le.1 hlow)

theorem isAlphabetic_of_isDigit (h : c.isDigit = true) : isAlphabetic c = false := by
  obtain ⟨hlow, hhigh⟩ := toNat_of_isDigit h
  have hascii : c.toNat < 0x80 := by omega
  have halpha : c.isAlpha = false := by
    rw [Bool.eq_false_iff]
    intro halpha
    have := toNat_of_isAlpha halpha
    omega
  rw [isAlphabetic, if_pos hascii, halpha]

theorem isBlank_of_isAlphabetic (h : isAlphabetic c = true) : isBlank c = false := by
  by_cases hascii : c.toNat < 0x80
  · rw [isAlphabetic, if_pos hascii] at h
    have halpha := toNat_of_isAlpha h
    have hspace : c ≠ ' ' := by
      rintro rfl
      cases h
    have hctl : ¬ c.toNat ≤ 13 := by omega
    simp [isBlank, hascii, hspace, hctl]
  · rw [isAlphabetic, if_neg hascii] at h
    rw [isBlank, if_neg hascii]
    cases hblank : inRanges otherWhitespace c.toNat with
    | true =>
      rw [hblank] at h
      cases h
    | false => rfl

/-! ## Runs -/

variable {p : Char → Bool} {cs rest : List Char}

/-- A run of characters that satisfy `p` is what `takeWhile p` takes, if none follows. -/
theorem takeWhile_run (hcs : ∀ c ∈ cs, p c = true)
    (hrest : ∀ c ∈ rest.head?, p c = false) : (cs ++ rest).takeWhile p = cs := by
  rw [List.takeWhile_append_of_pos hcs]
  cases rest with
  | nil => simp
  | cons c rest =>
    have hc : p c = false := hrest c rfl
    simp [hc]

/-- A run of characters that satisfy `p` is what `dropWhile p` drops, if none follows. -/
theorem dropWhile_run (hcs : ∀ c ∈ cs, p c = true)
    (hrest : ∀ c ∈ rest.head?, p c = false) : (cs ++ rest).dropWhile p = rest := by
  rw [List.dropWhile_append_of_pos hcs]
  cases rest with
  | nil => simp
  | cons c rest =>
    have hc : p c = false := hrest c rfl
    simp [hc]

/-- A run of characters that satisfy `p` ends before one that does not. -/
theorem takeWhile_before (hc : p c = false) (cs rest : List Char) :
    (cs ++ c :: rest).takeWhile p = cs.takeWhile p := by
  induction cs with
  | nil => simp [hc]
  | cons d cs ih =>
    rw [List.cons_append, List.takeWhile_cons, List.takeWhile_cons, ih]

/-- What is behind a run of characters goes on with what follows. -/
theorem dropWhile_before (hc : p c = false) (cs rest : List Char) :
    (cs ++ c :: rest).dropWhile p = cs.dropWhile p ++ c :: rest := by
  induction cs with
  | nil => simp [hc]
  | cons d cs ih =>
    rw [List.cons_append, List.dropWhile_cons, List.dropWhile_cons, ih]
    split <;> rfl

end PipeQuery
