import PipeQuery.Value.Basic

/-!
# The order of values

Values stand on a line: by kind, then by a number, then by a text (`rank`, `place` and
`letters`).  Values other than `nan` are sorted as they stand on it
(`compare_eq_compareOnLine`); `nan` compares by kind alone (`compare_nan`).

So sorting goes by an order of all values but `nan`.  As `nan` ties with every number,
nothing can be passed on through it: `compare_not_transitive` has two numbers that are
out of order although `nan` may stand between them.  `compare_order_but_for_nan` says
that nothing else is wrong.
-/

namespace PipeQuery.Value

open Std

variable {a b c : Value}

/-! ## The line -/

/-- Where a value stands among those of its kind, as a number. -/
def place : Value → Int
  | .boolean b => b.toNat
  | .number n => n.position?.getD 0
  | .array items => items.length
  | .object entries => entries.length
  | .null | .string _ => 0

/-- Where a value stands among those of its kind, as a text. -/
def letters : Value → String
  | .string s => s
  | _ => ""

/-- The order of the line. -/
def compareOnLine : Value → Value → Ordering :=
  compareLex (compareOn rank) (compareLex (compareOn place) (compareOn letters))

instance : TransCmp compareOnLine :=
  inferInstanceAs (TransCmp (compareLex _ (compareLex _ _)))

/-- The value that has no place on the line. -/
abbrev nan : Value := .number .nan

theorem exists_position {n : Number} (h : number n ≠ nan) : ∃ z, n.position? = some z := by
  cases n with
  | nan => exact absurd rfl h
  | infinite negative => exact ⟨_, rfl⟩
  | finite negative m => exact ⟨_, rfl⟩

theorem compare_lengths (m n : Nat) : Ord.compare (m : Int) (n : Int) = Ord.compare m n := by
  simp only [Ord.compare, compareOfLessAndEq, Int.ofNat_lt, Int.ofNat_inj]

/-- Sorting goes along the line. -/
theorem compare_eq_compareOnLine (ha : a ≠ nan) (hb : b ≠ nan) :
    a.compare b = a.compareOnLine b := by
  have line : ∀ v w : Value, v.compareOnLine w = (Ord.compare v.rank w.rank).then
      ((Ord.compare v.place w.place).then (Ord.compare v.letters w.letters)) := fun _ _ => rfl
  -- values of different kinds compare by rank on both sides
  cases a <;> cases b <;> try rfl
  case boolean.boolean x y => cases x <;> cases y <;> rfl
  case number.number x y =>
    obtain ⟨p, hp⟩ := exists_position ha
    obtain ⟨q, hq⟩ := exists_position hb
    simp [line, compare, Number.compare?, rank, place, letters, hp, hq]
  case array.array xs ys => simp [line, compare, rank, place, letters, compare_lengths]
  case object.object xs ys => simp [line, compare, rank, place, letters, compare_lengths]

/-! ## The number without a place -/

theorem compare_nan (v : Value) : nan.compare v = Ord.compare nan.rank v.rank := by
  cases v <;> rfl

theorem compare_nan_right (v : Value) : v.compare nan = Ord.compare v.rank nan.rank := by
  cases v with
  | number n => cases n <;> rfl
  | _ => rfl

/-- Comparing the other way round turns the result round. -/
theorem compare_swap (a b : Value) : b.compare a = (a.compare b).swap := by
  by_cases ha : a = nan
  · rw [ha, compare_nan, compare_nan_right]
    exact OrientedCmp.eq_swap
  by_cases hb : b = nan
  · rw [hb, compare_nan, compare_nan_right]
    exact OrientedCmp.eq_swap
  rw [compare_eq_compareOnLine ha hb, compare_eq_compareOnLine hb ha]
  exact OrientedCmp.eq_swap

/-- What may stand first is of no later kind. -/
theorem rank_le_of_isLE (h : (a.compare b).isLE) : a.rank ≤ b.rank := by
  have hrank : (Ord.compare a.rank b.rank).isLE := by
    by_cases ha : a = nan
    · rwa [ha, compare_nan, ← ha] at h
    by_cases hb : b = nan
    · rwa [hb, compare_nan_right, ← hb] at h
    rw [compare_eq_compareOnLine ha hb] at h
    exact (Ordering.isLE_then_iff_and.1 h).1
  exact Nat.isLE_compare.1 hrank

/-- Order is passed on through a value that has a place. -/
theorem compare_isLE_trans (hb : b ≠ nan) (hab : (a.compare b).isLE) (hbc : (b.compare c).isLE) :
    (a.compare c).isLE := by
  have hrank : (Ord.compare a.rank c.rank).isLE :=
    Nat.isLE_compare.2 (Nat.le_trans (rank_le_of_isLE hab) (rank_le_of_isLE hbc))
  by_cases ha : a = nan
  · rwa [ha, compare_nan, ← ha]
  by_cases hc : c = nan
  · rwa [hc, compare_nan_right, ← hc]
  rw [compare_eq_compareOnLine ha hb] at hab
  rw [compare_eq_compareOnLine hb hc] at hbc
  rw [compare_eq_compareOnLine ha hc]
  exact TransCmp.isLE_trans hab hbc

theorem isLE_of_tie (h : a.compare b = .eq) : (a.compare b).isLE ∧ (b.compare a).isLE := by
  rw [compare_swap a b, h]
  decide

/-- Values that tie compare alike, if both have a place. -/
theorem compare_congr (ha : a ≠ nan) (hb : b ≠ nan) (h : a.compare b = .eq) (c : Value) :
    a.compare c = b.compare c := by
  by_cases hc : c = nan
  · have hrank := Nat.le_antisymm (rank_le_of_isLE (isLE_of_tie h).1)
      (rank_le_of_isLE (isLE_of_tie h).2)
    rw [hc, compare_nan_right, compare_nan_right, hrank]
  rw [compare_eq_compareOnLine ha hb] at h
  rw [compare_eq_compareOnLine ha hc, compare_eq_compareOnLine hb hc]
  exact TransCmp.congr_left h

/-- The least number. -/
abbrev least : Value := .number (.infinite true)

/-- The greatest number. -/
abbrev greatest : Value := .number (.infinite false)

theorem greatest_not_before_least : (greatest.compare least).isLE = false := by decide +kernel

/-- Only what has no place ties with the numbers at both ends. -/
theorem eq_nan_of_ties (hleast : least.compare b = .eq) (hgreatest : greatest.compare b = .eq) :
    b = nan := by
  by_cases hb : b = nan
  · exact hb
  have h := compare_isLE_trans hb (isLE_of_tie hgreatest).1 (isLE_of_tie hleast).2
  rw [greatest_not_before_least] at h
  contradiction

/-- What compares like `nan` is `nan`. -/
theorem eq_nan_of_congr (h : ∀ c, nan.compare c = b.compare c) : b = nan := by
  have hleast : least.compare b = .eq := by
    rw [compare_swap b, ← h]
    rfl
  have hgreatest : greatest.compare b = .eq := by
    rw [compare_swap b, ← h]
    rfl
  exact eq_nan_of_ties hleast hgreatest

/-- Sorting compares consistently both ways.  Order is passed on through a value exactly if that
is not `nan`, and values that tie compare alike exactly if none or both of them are `nan`. -/
theorem compare_order_but_for_nan (a b : Value) :
    b.compare a = (a.compare b).swap
      ∧ ((∀ c d : Value, (c.compare a).isLE → (a.compare d).isLE → (c.compare d).isLE) ↔ a ≠ nan)
      ∧ (a.compare b = .eq →
          ((∀ c, a.compare c = b.compare c) ↔ (a = nan ↔ b = nan))) := by
  refine ⟨compare_swap a b, ⟨?_, ?_⟩, fun hab => ⟨?_, ?_⟩⟩
  · rintro h rfl
    have hle := h greatest least rfl rfl
    rw [greatest_not_before_least] at hle
    contradiction
  · intro ha c d
    exact compare_isLE_trans ha
  · intro h
    constructor
    · rintro rfl
      exact eq_nan_of_congr h
    · rintro rfl
      exact eq_nan_of_congr fun c => (h c).symm
  · intro h
    by_cases ha : a = nan
    · intro c
      rw [ha, h.1 ha]
    · exact compare_congr ha (mt h.2 ha) hab

/-- Two does not stand before one, but it may stand before `nan`, and `nan` before one. -/
theorem compare_not_transitive :
    ¬ ∀ a b c : Value, (a.compare b).isLE → (b.compare c).isLE → (a.compare c).isLE := by
  intro h
  have hle := h (.number (.ofNat 2)) nan (.number (.ofNat 1)) (by decide +kernel)
    (by decide +kernel)
  revert hle
  decide +kernel

end PipeQuery.Value
