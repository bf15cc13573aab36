import PipeQuery.Proofs.Value.Canonical
import PipeQuery.Proofs.Value.Index

/-!
# Numbers of equal values

Values are put into an index one after the other.  `Numbering` says what is answered: a value
that no earlier one equals gets the next number, and any other the number of the first that
equals it.

What is put in is compared with the values of one bucket only, and those that got a number
stand for all that came: the index numbers them (`Answered`), and equality is transitive.  A
bucket has no two values with finite numbers, as their canonical texts decide equality
(`Answered.length_bucket_le`).
-/

namespace PipeQuery.Value

variable {values kept : List Value} {v w : Value} {i : Nat}

/-! ## The first equal value -/

/-- The place of the first value that equals `v`. -/
def firstEqual? (values : List Value) (v : Value) : Option Nat :=
  values.findIdx? fun w => w.equals v

theorem firstEqual?_eq_none_iff :
    firstEqual? values v = none ↔ ∀ w ∈ values, w.equals v = false :=
  List.findIdx?_eq_none_iff

theorem firstEqual?_eq_some_iff :
    firstEqual? values v = some i
      ↔ ∃ w, values[i]? = some w ∧ w.equals v = true ∧ firstEqual? (values.take i) v = none := by
  rw [firstEqual?, List.findIdx?_eq_some_iff_getElem]
  constructor
  · rintro ⟨hi, heq, hfirst⟩
    refine ⟨values[i], List.getElem?_eq_getElem hi, heq, firstEqual?_eq_none_iff.2 ?_⟩
    intro u hu
    obtain ⟨j, hj, rfl⟩ := List.mem_take_iff_getElem.1 hu
    exact Bool.eq_false_iff.2 (hfirst j (by omega))
  · rintro ⟨w, hw, heq, hnone⟩
    obtain ⟨hi, rfl⟩ := List.getElem?_eq_some_iff.1 hw
    refine ⟨hi, heq, fun j hj => Bool.eq_false_iff.1 ?_⟩
    exact firstEqual?_eq_none_iff.1 hnone _ (List.mem_take_iff_getElem.2 ⟨j, by omega, rfl⟩)

/-- Equal values are equal to the same values. -/
theorem firstEqual?_congr (h : v.equals w = true) (hv : v.Distinct) (hw : w.Distinct)
    (values : List Value) : firstEqual? values v = firstEqual? values w := by
  have hsame : (fun u : Value => u.equals v) = fun u => u.equals w := by
    funext u
    rw [Bool.eq_iff_iff]
    constructor
    · intro huv
      exact equals_trans huv h
    · intro huw
      exact equals_trans huw (equals_symm h hv hw)
  rw [firstEqual?, firstEqual?, hsame]

/-! ## Answers -/

/-- The numbers that were new when they were given. -/
def newNumbers (answers : List (Nat × Bool)) : List Nat :=
  (answers.filter Prod.snd).map Prod.fst

theorem newNumbers_append (answers others : List (Nat × Bool)) :
    newNumbers (answers ++ others) = newNumbers answers ++ newNumbers others := by
  rw [newNumbers, List.filter_append, List.map_append]
  rfl

/-- The answers to values that are put in one after the other: the number of each, and whether it
is new. -/
structure Numbering (values : List Value) (answers : List (Nat × Bool)) (size : Nat) : Prop where
  /-- There is an answer to each value. -/
  length : answers.length = values.length
  /-- The new numbers are those below `size`, in their order. -/
  inOrder : newNumbers answers = List.range size
  /-- A value gets a new number if no earlier one equals it. -/
  new : ∀ i v, values[i]? = some v → firstEqual? (values.take i) v = none →
    ∃ slot, answers[i]? = some (slot, true)
  /-- Otherwise it gets the number that was new with the first value that equals it. -/
  found : ∀ i v j, values[i]? = some v → firstEqual? (values.take i) v = some j →
    ∃ slot, answers[j]? = some (slot, true) ∧ answers[i]? = some (slot, false)

variable {answers : List (Nat × Bool)} {answer : Nat × Bool} {size size' slot : Nat}

theorem numbering_nil : Numbering [] [] 0 where
  length := rfl
  inOrder := rfl
  new := by simp
  found := by simp

/-- When a value was added, a place is an old one, with the same values before it, or the last. -/
theorem concat_cases (h : (values ++ [v])[i]? = some w) :
    (values[i]? = some w ∧ (values ++ [v]).take i = values.take i)
      ∨ (i = values.length ∧ w = v ∧ (values ++ [v]).take i = values) := by
  rcases Index.getElem?_concat_eq_some_iff.1 h with hold | ⟨rfl, rfl⟩
  · obtain ⟨hi, -⟩ := List.getElem?_eq_some_iff.1 hold
    exact .inl ⟨hold, List.take_append_of_le_length (Nat.le_of_lt hi)⟩
  · exact .inr ⟨rfl, rfl, List.take_left' rfl⟩

/-- One value more, with an answer that is right behind the others. -/
theorem Numbering.concat (h : Numbering values answers size)
    (horder : newNumbers (answers ++ [answer]) = List.range size')
    (hnew : firstEqual? values v = none → ∃ slot, answer = (slot, true))
    (hfound : ∀ j, firstEqual? values v = some j →
      ∃ slot, answers[j]? = some (slot, true) ∧ answer = (slot, false)) :
    Numbering (values ++ [v]) (answers ++ [answer]) size' := by
  have hold : ∀ {j : Nat} {a : Nat × Bool}, answers[j]? = some a →
      (answers ++ [answer])[j]? = some a := fun ha =>
    Index.getElem?_concat_eq_some_iff.2 (.inl ha)
  have hlast : (answers ++ [answer])[values.length]? = some answer :=
    Index.getElem?_concat_eq_some_iff.2 (.inr ⟨h.length.symm, rfl⟩)
  refine ⟨by simp [h.length], horder, ?_, ?_⟩
  · intro i w hw hnone
    rcases concat_cases hw with ⟨hw, htake⟩ | ⟨rfl, rfl, htake⟩
    · rw [htake] at hnone
      obtain ⟨slot, hslot⟩ := h.new i w hw hnone
      exact ⟨slot, hold hslot⟩
    · rw [htake] at hnone
      obtain ⟨slot, rfl⟩ := hnew hnone
      exact ⟨slot, hlast⟩
  · intro i w j hw hj
    rcases concat_cases hw with ⟨hw, htake⟩ | ⟨rfl, rfl, htake⟩
    · rw [htake] at hj
      obtain ⟨slot, hfirst, hslot⟩ := h.found i w j hw hj
      exact ⟨slot, hold hfirst, hold hslot⟩
    · rw [htake] at hj
      obtain ⟨slot, hfirst, rfl⟩ := hfound j hj
      exact ⟨slot, hold hfirst, hlast⟩

/-- A value whose number was new is the first of those that equal it. -/
theorem Numbering.firstEqual?_eq (h : Numbering values answers size) (hw : w.Distinct)
    (hv : v.Distinct) (hvalue : values[i]? = some w) (hanswer : answers[i]? = some (slot, true))
    (heq : w.equals v = true) : firstEqual? values v = some i := by
  refine firstEqual?_eq_some_iff.2 ⟨w, hvalue, heq, ?_⟩
  rw [← firstEqual?_congr heq hw hv]
  cases hfirst : firstEqual? (values.take i) w with
  | none => rfl
  | some j =>
    obtain ⟨slot', -, hfound⟩ := h.found i w j hvalue hfirst
    rw [hanswer] at hfound
    cases hfound

namespace Index

/-! ## Putting values in -/

/-- A value is put in, and what is answered goes behind the other answers. -/
def push (state : List (Nat × Bool) × Index) (v : Value) : List (Nat × Bool) × Index :=
  let (slot, created, index) := state.2.insert v
  (state.1 ++ [(slot, created)], index)

/-- Values are put into the empty index one after the other: the answers, and the index. -/
def insertAll (values : List Value) : List (Nat × Bool) × Index :=
  values.foldl push ([], .empty)

/-- The values so far have their answers, and the index numbers those with new numbers. -/
structure Answered (kept values : List Value) (answers : List (Nat × Bool)) (index : Index) :
    Prop where
  /-- The answers are right. -/
  numbering : Numbering values answers index.size
  /-- The index numbers the values that are kept. -/
  numbers : index.Numbers kept
  /-- These are the values with new numbers, each in the place that its number says. -/
  kept_iff : ∀ slot w, kept[slot]? = some w ↔ (w, slot, true) ∈ values.zip answers
  /-- No bucket holds a value twice with one number. -/
  nodup : ∀ key, (index.bucket key).Nodup

variable {index : Index}

theorem answered_nil : Answered [] [] [] .empty where
  numbering := numbering_nil
  numbers := numbers_empty
  kept_iff := by simp
  nodup := by simp [bucket, empty]

theorem Answered.exists_place (h : Answered kept values answers index)
    (hslot : kept[slot]? = some w) :
    ∃ i : Nat, values[i]? = some w ∧ answers[i]? = some (slot, true) := by
  obtain ⟨i, hi⟩ := List.getElem?_of_mem ((h.kept_iff slot w).1 hslot)
  exact ⟨i, List.getElem?_zip_eq_some.1 hi⟩

/-- What equals none of the kept values equals no value that came. -/
theorem Answered.firstEqual?_eq_none (h : Answered kept values answers index)
    (hvalues : ∀ w ∈ values, w.Distinct) (hv : v.Distinct)
    (hkept : ∀ w ∈ kept, w.equals v = false) : firstEqual? values v = none := by
  cases hfirst : firstEqual? values v with
  | none => rfl
  | some i =>
    -- the first value that equals `v` had a new number
    obtain ⟨w, hw, heq, hnone⟩ := firstEqual?_eq_some_iff.1 hfirst
    rw [← firstEqual?_congr heq (hvalues w (List.mem_of_getElem? hw)) hv] at hnone
    obtain ⟨slot, hslot⟩ := h.numbering.new i w hw hnone
    have hzip : (values.zip answers)[i]? = some (w, slot, true) :=
      List.getElem?_zip_eq_some.2 ⟨hw, hslot⟩
    have hmem := (h.kept_iff slot w).2 (List.mem_of_getElem? hzip)
    have hne := hkept w (List.mem_of_getElem? hmem)
    rw [heq] at hne
    cases hne

/-- A value that equals a kept one gets its number. -/
theorem Answered.found (h : Answered kept values answers index)
    (hvalues : ∀ w ∈ values, w.Distinct) (hv : v.Distinct) (hslot : kept[slot]? = some w)
    (heq : w.equals v = true) :
    Answered kept (values ++ [v]) (answers ++ [(slot, false)]) index where
  numbering := by
    obtain ⟨i, hvalue, hanswer⟩ := h.exists_place hslot
    have hw := hvalues w (List.mem_of_getElem? hvalue)
    have hfirst := h.numbering.firstEqual?_eq hw hv hvalue hanswer heq
    refine h.numbering.concat ?_ ?_ ?_
    · rw [newNumbers_append, h.numbering.inOrder]
      exact List.append_nil _
    · intro hnone
      rw [hfirst] at hnone
      cases hnone
    · intro j hj
      rw [hfirst] at hj
      cases hj
      exact ⟨slot, hanswer, rfl⟩
  numbers := h.numbers
  kept_iff := by
    intro slot' u
    rw [h.kept_iff, List.zip_append h.numbering.length.symm, List.mem_append]
    simp
  nodup := h.nodup

theorem Numbers.nodup_bucket_append (h : index.Numbers kept)
    (hnodup : ∀ key, (index.bucket key).Nodup) (v : Value) (key : String) :
    ((index.append v).bucket key).Nodup := by
  rw [bucket_append]
  split
  next hkey =>
    refine List.nodup_append.2 ⟨hnodup key, List.nodup_singleton _, ?_⟩
    rintro ⟨w, slot⟩ hmem e he rfl
    obtain ⟨rfl, rfl⟩ := Prod.mk.inj (List.mem_singleton.1 he)
    obtain ⟨hlt, -⟩ := List.getElem?_eq_some_iff.1 ((h.mem_bucket _ _ _).1 hmem).1
    rw [h.size] at hlt
    exact Nat.lt_irrefl _ hlt
  next hkey => exact hnodup key

/-- A value that equals no kept one is kept, with the next number. -/
theorem Answered.append (h : Answered kept values answers index)
    (hvalues : ∀ w ∈ values, w.Distinct) (hv : v.Distinct)
    (hkept : ∀ w ∈ kept, w.equals v = false) :
    Answered (kept ++ [v]) (values ++ [v]) (answers ++ [(kept.length, true)]) (index.append v) where
  numbering := by
    have hnone := h.firstEqual?_eq_none hvalues hv hkept
    refine h.numbering.concat ?_ ?_ ?_
    · rw [newNumbers_append, h.numbering.inOrder, ← h.numbers.size]
      exact List.range_succ.symm
    · intro _
      exact ⟨_, rfl⟩
    · intro j hj
      rw [hnone] at hj
      cases hj
  numbers := h.numbers.append v
  kept_iff := by
    intro slot w
    rw [getElem?_concat_eq_some_iff, h.kept_iff, List.zip_append h.numbering.length.symm,
      List.mem_append]
    simp [and_comm]
  nodup := h.numbers.nodup_bucket_append h.nodup v

/-- One value more is put in. -/
theorem Answered.push (h : Answered kept values answers index)
    (hvalues : ∀ w ∈ values, w.Distinct) (hv : v.Distinct) :
    ∃ kept, Answered kept (values ++ [v]) (push (answers, index) v).1
      (push (answers, index) v).2 := by
  have hkept : ∀ w ∈ kept, w.Distinct := by
    intro w hw
    obtain ⟨slot, hslot⟩ := List.getElem?_of_mem hw
    exact hvalues w (List.of_mem_zip ((h.kept_iff slot w).1 hslot)).1
  rcases insert_cases h.numbers hkept hv with ⟨slot, w, hslot, heq, hinsert⟩ | ⟨hne, hinsert⟩
  · rw [Index.push, hinsert]
    exact ⟨kept, h.found hvalues hv hslot heq⟩
  · rw [Index.push, hinsert]
    exact ⟨kept ++ [v], h.append hvalues hv hne⟩

/-- All values have their answers when all are in. -/
theorem exists_answered (hvalues : ∀ v ∈ values, v.Distinct) :
    ∃ kept, Answered kept values (insertAll values).1 (insertAll values).2 := by
  induction values using List.reverseRecOn with
  | nil => exact ⟨[], answered_nil⟩
  | append_singleton values v ih =>
    obtain ⟨hvalues, hv⟩ := List.forall_mem_append.1 hvalues
    obtain ⟨kept, h⟩ := ih hvalues
    rw [insertAll, List.foldl_append]
    exact h.push hvalues (hv v List.mem_cons_self)

/-! ## Buckets -/

/-- A bucket has no two values with finite numbers: they would be equal, and both new. -/
theorem Answered.eq_of_mem_bucket (h : Answered kept values answers index)
    (hvalues : ∀ w ∈ values, w.Distinct) {key : String} {e f : Value × Nat}
    (he : e ∈ index.bucket key) (hf : f ∈ index.bucket key) (heRange : e.1.InRange)
    (hfRange : f.1.InRange) : e = f := by
  obtain ⟨w, slot⟩ := e
  obtain ⟨u, slot'⟩ := f
  obtain ⟨hw, hwkey⟩ := (h.numbers.mem_bucket _ _ _).1 he
  obtain ⟨hu, hukey⟩ := (h.numbers.mem_bucket _ _ _).1 hf
  obtain ⟨i, hi, hianswer⟩ := h.exists_place hw
  obtain ⟨j, hj, hjanswer⟩ := h.exists_place hu
  have hwDistinct := hvalues w (List.mem_of_getElem? hi)
  have huDistinct := hvalues u (List.mem_of_getElem? hj)
  have htext : w.canonical = u.canonical := String.ofList_injective (hwkey.trans hukey.symm)
  have heq := (canonical_eq_iff hwDistinct huDistinct heRange hfRange).1 htext
  have hself := (canonical_eq_iff huDistinct huDistinct hfRange hfRange).1 rfl
  -- both are the first value that equals the second
  have hfirst := h.numbering.firstEqual?_eq hwDistinct huDistinct hi hianswer heq
  rw [h.numbering.firstEqual?_eq huDistinct huDistinct hj hjanswer hself] at hfirst
  cases hfirst
  rw [hi] at hj
  rw [hianswer] at hjanswer
  cases hj
  cases hjanswer
  rfl

/-- A bucket whose values have finite numbers holds one value at most. -/
theorem Answered.length_bucket_le (h : Answered kept values answers index)
    (hvalues : ∀ w ∈ values, w.Distinct) {key : String}
    (hrange : ∀ e ∈ index.bucket key, e.1.InRange) : (index.bucket key).length ≤ 1 := by
  have hnodup := h.nodup key
  have hone : ∀ e ∈ index.bucket key, ∀ f ∈ index.bucket key, e = f := fun e he f hf =>
    h.eq_of_mem_bucket hvalues he hf (hrange e he) (hrange f hf)
  match hbucket : index.bucket key with
  | [] => exact Nat.zero_le 1
  | [_] => exact Nat.le_refl 1
  | e :: f :: rest =>
    rw [hbucket] at hnodup hone
    have hne := (List.nodup_cons.1 hnodup).1
    rw [hone e (by simp) f (by simp)] at hne
    exact absurd List.mem_cons_self hne

/-- Values with finite numbers have one canonical text exactly if they are equal, that is if they
hold the same, in objects whatever the order of keys, and of numbers the two zeros.  Of values that
are put into an index, with whatever numbers, each that no earlier one equals gets the next number,
and any other the number of the first that equals it; and a bucket of values with finite numbers
holds one at most.

No object in a value has a key twice, or equality would not go both ways. -/
theorem bucket_keys_decide_equality (a b : Value) (values : List Value) (ha : a.Distinct)
    (hb : b.Distinct) (haRange : a.InRange) (hbRange : b.InRange)
    (hvalues : ∀ v ∈ values, v.Distinct) :
    (a.canonical = b.canonical ↔ a.equals b = true)
      ∧ (a.equals b = true ↔ DeeplyEqual a b)
      ∧ Numbering values (insertAll values).1 (insertAll values).2.size
      ∧ ∀ key, (∀ e ∈ (insertAll values).2.bucket key, e.1.InRange) →
          ((insertAll values).2.bucket key).length ≤ 1 := by
  obtain ⟨kept, h⟩ := exists_answered hvalues
  refine ⟨canonical_eq_iff ha hb haRange hbRange, equals_iff_deeplyEqual ha hb, h.numbering, ?_⟩
  intro key hrange
  exact h.length_bucket_le hvalues hrange

/-- Keys in another order and another zero, at depth; and `nan` in the bucket of `null`, beside the
bucket of the zeros. -/
theorem bucket_keys_decide_equality_nested :
    (Value.array [.object [("a", .number (.finite false .zero)), ("b", .string "0")]]).canonical
        = (Value.array [.object [("b", .string "0"), ("a", .number (.finite true .zero))]]).canonical
      ∧ Numbering [.number .nan, .string "0", .number (.finite false .zero), .null, .number .nan,
          .number (.finite true .zero), .null]
        [(0, true), (1, true), (2, true), (3, true), (4, true), (2, false), (3, false)] 5
      ∧ ((insertAll [.number .nan, .string "0", .number (.finite false .zero), .null, .number .nan,
          .number (.finite true .zero), .null]).2.bucket "0").length ≤ 1 := by
  obtain ⟨hcanonical, -, hnumbering, hbucket⟩ := bucket_keys_decide_equality
    (.array [.object [("a", .number (.finite false .zero)), ("b", .string "0")]])
    (.array [.object [("b", .string "0"), ("a", .number (.finite true .zero))]])
    [.number .nan, .string "0", .number (.finite false .zero), .null, .number .nan,
      .number (.finite true .zero), .null]
    (by simp [Distinct, DistinctItems, DistinctEntries, Entries.keys])
    (by simp [Distinct, DistinctItems, DistinctEntries, Entries.keys])
    (by decide) (by decide) (by simp [Distinct])
  have hanswers : (insertAll [.number .nan, .string "0", .number (.finite false .zero), .null,
      .number .nan, .number (.finite true .zero), .null]).1
      = [(0, true), (1, true), (2, true), (3, true), (4, true), (2, false), (3, false)] := by
    decide +kernel
  have hsize : (insertAll [.number .nan, .string "0", .number (.finite false .zero), .null,
      .number .nan, .number (.finite true .zero), .null]).2.size = 5 := by
    decide +kernel
  rw [hanswers, hsize] at hnumbering
  exact ⟨hcanonical.2 (by decide), hnumbering, hbucket "0" (by decide +kernel)⟩

end Index

end PipeQuery.Value
