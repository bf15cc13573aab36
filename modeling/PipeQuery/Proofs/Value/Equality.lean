import Mathlib.Data.List.Basic
import Mathlib.Data.List.Forall2
import Mathlib.Data.List.Nodup
import Mathlib.Data.List.Perm.Subperm
import PipeQuery.Proofs.Number.Numeral
import PipeQuery.Proofs.Value.Parts
import PipeQuery.Value.Index

/-!
# Deep equality

Deep equality is symmetric and transitive; what holds `nan` does not equal itself.
Objects are equal if they have the same keys and equal values under each
(`exists_of_equals_object` goes from an entry of the second back to one of the first).

`canonical_eq_of_equals` says that equal values have one canonical text: the order of
keys and the sign of zero are not in it.
-/

namespace PipeQuery

/-! ## Numbers -/

namespace Number

variable {a b : Number}

/-- Equal numbers are the same number, or zeros. -/
theorem eq_or_zero_of_equals (h : a.equals b) :
    a = b ∨ ∃ s t m n, a = .finite s m ∧ b = .finite t n ∧ m.steps = 0 ∧ n.steps = 0 := by
  obtain ⟨x, hx, hy⟩ := equals_iff.1 h
  have hxy := hx.trans hy.symm
  have hlimit := magnitudeLimit_pos
  cases a with
  | nan => cases hx
  | infinite s =>
    cases b with
    | nan => cases hy
    | infinite t =>
      left
      cases s <;> cases t <;>
        simp only [position?, Option.some.injEq, Bool.false_eq_true, if_true, if_false] at hxy ⊢ <;>
        omega
    | finite t n =>
      have := n.steps_lt
      cases s <;> cases t <;>
        simp only [position?, Magnitude.signed, Option.some.injEq, Bool.false_eq_true, if_true,
          if_false] at hxy <;>
        omega
  | finite s m =>
    have hm := m.steps_lt
    cases b with
    | nan => cases hy
    | infinite t =>
      cases s <;> cases t <;>
        simp only [position?, Magnitude.signed, Option.some.injEq, Bool.false_eq_true, if_true,
          if_false] at hxy <;>
        omega
    | finite t n =>
      obtain ⟨i, hi, hi'⟩ := m
      obtain ⟨j, hj, hj'⟩ := n
      cases s <;> cases t <;>
        simp [position?, Magnitude.signed] at hxy ⊢ <;> omega

theorem chars_zero {m : Magnitude} (h : m.steps = 0) (s : Bool) :
    (finite s m).chars = integerChars 0 := by
  have hpos := stepsPerUnit_pos
  simp [chars, smallInteger?, h, hpos]

/-- Equal numbers are printed alike. -/
theorem jsonNumber_congr (h : a.equals b) : jsonNumber a = jsonNumber b := by
  rcases eq_or_zero_of_equals h with rfl | ⟨s, t, m, n, rfl, rfl, hm, hn⟩
  · rfl
  · simp only [jsonNumber, isFinite, if_true, chars_zero hm, chars_zero hn]

theorem equals_symm (h : a.equals b) : b.equals a := by
  obtain ⟨x, ha, hb⟩ := equals_iff.1 h
  exact equals_iff.2 ⟨x, hb, ha⟩

theorem equals_trans {c : Number} (hab : a.equals b) (hbc : b.equals c) : a.equals c := by
  obtain ⟨x, ha, hb⟩ := equals_iff.1 hab
  obtain ⟨y, hb', hc⟩ := equals_iff.1 hbc
  cases hb.symm.trans hb'
  exact equals_iff.2 ⟨x, ha, hc⟩

end Number

namespace Value

variable {a b c : Value} {xs ys : List Value} {es fs : List (String × Value)}

/-! ## Containers -/

theorem equalsItems_iff :
    equalsItems xs ys = true
      ↔ xs.length = ys.length
        ∧ ∀ (i : Nat) (hx : i < xs.length) (hy : i < ys.length), xs[i].equals ys[i] = true := by
  induction xs generalizing ys with
  | nil => cases ys <;> simp [equalsItems]
  | cons x xs ih =>
    cases ys with
    | nil => simp [equalsItems]
    | cons y ys =>
      rw [equalsItems, Bool.and_eq_true, ih]
      constructor
      · rintro ⟨hhead, hlength, htail⟩
        refine ⟨congrArg (· + 1) hlength, fun i hx hy => ?_⟩
        cases i with
        | zero => exact hhead
        | succ i => exact htail i (Nat.lt_of_succ_lt_succ hx) (Nat.lt_of_succ_lt_succ hy)
      · rintro ⟨hlength, hall⟩
        exact ⟨hall 0 (Nat.zero_lt_succ _) (Nat.zero_lt_succ _), Nat.succ.inj hlength,
          fun i hx hy => hall (i + 1) (Nat.succ_lt_succ hx) (Nat.succ_lt_succ hy)⟩

theorem equals_array_iff :
    (Value.array xs).equals (.array ys) = true
      ↔ xs.length = ys.length
        ∧ ∀ (i : Nat) (hx : i < xs.length) (hy : i < ys.length), xs[i].equals ys[i] = true := by
  rw [equals, equalsItems_iff]

theorem equalsEntries_iff :
    equalsEntries es fs = true
      ↔ ∀ e ∈ es, ∃ y, Entries.get? e.1 fs = some y ∧ e.2.equals y = true := by
  induction es with
  | nil => simp [equalsEntries]
  | cons e es ih =>
    obtain ⟨key, x⟩ := e
    rw [equalsEntries, Bool.and_eq_true, ih, List.forall_mem_cons]
    refine and_congr_left fun _ => ?_
    cases Entries.get? key fs <;> simp

theorem equals_object_iff :
    (Value.object es).equals (.object fs) = true
      ↔ es.length = fs.length
        ∧ ∀ e ∈ es, ∃ y, Entries.get? e.1 fs = some y ∧ e.2.equals y = true := by
  rw [equals, Bool.and_eq_true, beq_iff_eq, equalsEntries_iff]

/-- Equal objects have the same keys: none is missing in the first, as it has as many of them. -/
theorem keys_perm_of_equals_object (hes : (Entries.keys es).Nodup)
    (h : (Value.object es).equals (.object fs) = true) :
    (Entries.keys es).Perm (Entries.keys fs) := by
  obtain ⟨hlength, hall⟩ := equals_object_iff.1 h
  have hsubset : Entries.keys es ⊆ Entries.keys fs := by
    intro key hkey
    obtain ⟨x, hx⟩ := Entries.mem_keys_iff.1 hkey
    obtain ⟨y, hy, -⟩ := hall _ hx
    exact Entries.mem_keys_iff.2 ⟨y, Entries.mem_of_get? hy⟩
  refine (List.subperm_of_subset hes hsubset).perm_of_length_le ?_
  simp only [Entries.keys, List.length_map, hlength, Nat.le_refl]

/-- An entry of the second of two equal objects equals one of the first. -/
theorem exists_of_equals_object (hes : (Entries.keys es).Nodup) (hfs : (Entries.keys fs).Nodup)
    (h : (Value.object es).equals (.object fs) = true) {key : String} {y : Value}
    (hmem : (key, y) ∈ fs) : ∃ x, (key, x) ∈ es ∧ x.equals y = true := by
  have hkey : key ∈ Entries.keys es :=
    (keys_perm_of_equals_object hes h).mem_iff.2 (Entries.mem_keys_iff.2 ⟨y, hmem⟩)
  obtain ⟨x, hx⟩ := Entries.mem_keys_iff.1 hkey
  obtain ⟨z, hz, heq⟩ := (equals_object_iff.1 h).2 _ hx
  rw [Entries.get?_of_mem hfs hmem] at hz
  cases hz
  exact ⟨x, hx, heq⟩

/-! ## Equivalence -/

/-- What holds of equal values that hold no others, and of equal containers if of the values in
them that are equal, holds of all equal values. -/
@[elab_as_elim]
theorem equals_induction {motive : ∀ a b : Value, a.equals b = true → Prop}
    (null : motive .null .null rfl)
    (boolean : ∀ x h, motive (.boolean x) (.boolean x) h)
    (number : ∀ (m n : Number) (h : m.equals n = true), motive (.number m) (.number n) h)
    (string : ∀ s h, motive (.string s) (.string s) h)
    (array : ∀ xs ys (h : (Value.array xs).equals (.array ys) = true),
      (∀ (i : Nat) (hx : i < xs.length) (hy : i < ys.length) (he : xs[i].equals ys[i] = true),
        motive xs[i] ys[i] he) →
        motive (.array xs) (.array ys) h)
    (object : ∀ es fs (h : (Value.object es).equals (.object fs) = true),
      (∀ key x y he, (key, x) ∈ es → (key, y) ∈ fs → motive x y he) →
        motive (.object es) (.object fs) h)
    {a b : Value} (h : a.equals b = true) : motive a b h := by
  induction a using by_parts generalizing b with
  | null =>
    cases b with
    | null => exact null
    | _ => simp [equals] at h
  | boolean x =>
    cases b with
    | boolean y =>
      have hxy := h
      rw [equals, beq_iff_eq] at hxy
      subst hxy
      exact boolean x h
    | _ => simp [equals] at h
  | number m =>
    cases b with
    | number n => exact number m n h
    | _ => simp [equals] at h
  | string s =>
    cases b with
    | string t =>
      have hst := h
      rw [equals, beq_iff_eq] at hst
      subst hst
      exact string s h
    | _ => simp [equals] at h
  | array xs ih =>
    cases b with
    | array ys => exact array xs ys h fun i hx hy he => ih _ (List.getElem_mem hx) he
    | _ => simp [equals] at h
  | object es ih =>
    cases b with
    | object fs => exact object es fs h fun key x y he hx _ => ih (key, x) hx he
    | _ => simp [equals] at h

theorem equals_symm (h : a.equals b = true) (ha : a.Distinct) (hb : b.Distinct) :
    b.equals a = true := by
  induction h using equals_induction with
  | null => rfl
  | boolean x h => exact h
  | number m n h => exact Number.equals_symm h
  | string s h => exact h
  | array xs ys h ih =>
    rw [Distinct, distinctItems_iff] at ha hb
    obtain ⟨hlength, hall⟩ := equals_array_iff.1 h
    refine equals_array_iff.2 ⟨hlength.symm, fun i hy hx => ?_⟩
    exact ih i hx hy (hall i hx hy) (ha _ (List.getElem_mem hx)) (hb _ (List.getElem_mem hy))
  | object es fs h ih =>
    rw [Distinct, distinctEntries_iff] at ha hb
    refine equals_object_iff.2 ⟨(equals_object_iff.1 h).1.symm, fun e he => ?_⟩
    obtain ⟨x, hx, heq⟩ := exists_of_equals_object ha.1 hb.1 h he
    exact ⟨x, Entries.get?_of_mem ha.1 hx, ih _ _ _ heq hx he (ha.2 _ hx) (hb.2 _ he)⟩

theorem equals_trans (hab : a.equals b = true) (hbc : b.equals c = true) : a.equals c = true := by
  induction hab using equals_induction generalizing c with
  | null => exact hbc
  | boolean x h => exact hbc
  | number m n h =>
    cases c with
    | number k => exact Number.equals_trans h hbc
    | _ => simp [equals] at hbc
  | string s h => exact hbc
  | array xs ys h ih =>
    cases c with
    | array zs =>
      obtain ⟨hxy, hallxy⟩ := equals_array_iff.1 h
      obtain ⟨hyz, hallyz⟩ := equals_array_iff.1 hbc
      refine equals_array_iff.2 ⟨hxy.trans hyz, fun i hx hz => ?_⟩
      exact ih i hx (hxy ▸ hx) (hallxy i hx (hxy ▸ hx)) (hallyz i (hxy ▸ hx) hz)
    | _ => simp [equals] at hbc
  | object es fs h ih =>
    cases c with
    | object gs =>
      obtain ⟨hef, hallef⟩ := equals_object_iff.1 h
      obtain ⟨hfg, hallfg⟩ := equals_object_iff.1 hbc
      refine equals_object_iff.2 ⟨hef.trans hfg, fun e he => ?_⟩
      obtain ⟨y, hy, hxy⟩ := hallef e he
      have hy := Entries.mem_of_get? hy
      obtain ⟨z, hz, hyz⟩ := hallfg _ hy
      exact ⟨z, hz, ih _ _ _ hxy he hy hyz⟩
    | _ => simp [equals] at hbc

/-! ## Canonical text -/

theorem canonicalItems_eq (items : List Value) : canonicalItems items = items.map canonical := by
  induction items with
  | nil => rfl
  | cons x items ih => rw [canonicalItems, ih, List.map_cons]

theorem canonicalEntries_eq (entries : List (String × Value)) :
    canonicalEntries entries = entries.map fun e => (e.1, e.2.canonical) := by
  induction entries with
  | nil => rfl
  | cons e entries ih => rw [canonicalEntries, ih, List.map_cons]

theorem keys_canonicalEntries (entries : List (String × Value)) :
    (canonicalEntries entries).map Prod.fst = Entries.keys entries := by
  rw [canonicalEntries_eq, List.map_map]
  rfl

/-- Texts under the same keys are the same when sorted by key. -/
theorem mergeSort_eq_of_mem_iff {α : Type} {ps qs : List (String × α)}
    (hps : (ps.map Prod.fst).Nodup) (hqs : (qs.map Prod.fst).Nodup)
    (h : ∀ p, p ∈ ps ↔ p ∈ qs) :
    ps.mergeSort (fun a b => decide (a.1 ≤ b.1)) = qs.mergeSort fun a b => decide (a.1 ≤ b.1) := by
  have hperm : ps.Perm qs :=
    (List.perm_ext_iff_of_nodup (.of_map _ hps) (.of_map _ hqs)).2 h
  have sorted : ∀ rs : List (String × α),
      (rs.mergeSort fun a b => decide (a.1 ≤ b.1)).Pairwise fun a b => a.1 ≤ b.1 := by
    intro rs
    refine (List.pairwise_mergeSort ?_ ?_ rs).imp of_decide_eq_true
    · intro a b c hab hbc
      exact decide_eq_true (String.le_trans (of_decide_eq_true hab) (of_decide_eq_true hbc))
    · intro a b
      simpa using String.le_total a.1 b.1
  refine List.Perm.eq_of_pairwise ?_ (sorted ps) (sorted qs) ?_
  · intro p q hp hq hpq hqp
    refine List.inj_on_of_nodup_map hps (List.mem_mergeSort.1 hp) ?_ (String.le_antisymm hpq hqp)
    exact (h q).2 (List.mem_mergeSort.1 hq)
  · exact (List.mergeSort_perm ps _).trans (hperm.trans (List.mergeSort_perm qs _).symm)

/-- Equal values have the same canonical text. -/
theorem canonical_eq_of_equals (h : a.equals b = true) (ha : a.Distinct) (hb : b.Distinct) :
    a.canonical = b.canonical := by
  induction h using equals_induction with
  | null => rfl
  | boolean x h => rfl
  | number m n h => exact Number.jsonNumber_congr h
  | string s h => rfl
  | array xs ys h ih =>
    rw [Distinct, distinctItems_iff] at ha hb
    obtain ⟨hlength, hall⟩ := equals_array_iff.1 h
    have hitems : canonicalItems xs = canonicalItems ys := by
      rw [canonicalItems_eq, canonicalItems_eq]
      refine List.ext_getElem (by simpa using hlength) fun i hx hy => ?_
      rw [List.length_map] at hx hy
      rw [List.getElem_map, List.getElem_map]
      exact ih i hx hy (hall i hx hy) (ha _ (List.getElem_mem hx)) (hb _ (List.getElem_mem hy))
    rw [canonical, canonical, hitems]
  | object es fs h ih =>
    rw [Distinct, distinctEntries_iff] at ha hb
    have hmem : ∀ p, p ∈ canonicalEntries es ↔ p ∈ canonicalEntries fs := by
      intro p
      rw [canonicalEntries_eq, canonicalEntries_eq, List.mem_map, List.mem_map]
      constructor
      · rintro ⟨e, he, rfl⟩
        obtain ⟨y, hy, heq⟩ := (equals_object_iff.1 h).2 e he
        have hy := Entries.mem_of_get? hy
        exact ⟨_, hy, by rw [ih _ _ _ heq he hy (ha.2 e he) (hb.2 _ hy)]⟩
      · rintro ⟨e, he, rfl⟩
        obtain ⟨x, hx, heq⟩ := exists_of_equals_object ha.1 hb.1 h he
        exact ⟨_, hx, by rw [ih _ _ _ heq hx he (ha.2 _ hx) (hb.2 e he)]⟩
    have hsorted := mergeSort_eq_of_mem_iff ((keys_canonicalEntries es).symm ▸ ha.1)
      ((keys_canonicalEntries fs).symm ▸ hb.1) hmem
    rw [canonical, canonical, hsorted]

end Value

end PipeQuery
