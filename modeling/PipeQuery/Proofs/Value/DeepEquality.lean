import PipeQuery.Proofs.Value.Equality

/-!
# What deep equality is

`DeeplyEqual` says by the kinds of values when two of them are equal: arrays item by
item, objects by their keys, in whatever order these stand, and numbers by their place
on the line.  `equals_iff_deeplyEqual` says that deep equality as it is computed is this
relation.  Nothing that holds `nan` is equal to anything, and all else is equal to itself
(`equals_self_iff`).
-/

namespace PipeQuery.Value

variable {a b : Value} {items : List Value} {entries : Entries Value}

/-- The values hold the same. -/
inductive DeeplyEqual : Value → Value → Prop where
  /-- There is one `null`. -/
  | null : DeeplyEqual .null .null
  /-- A boolean equals itself. -/
  | boolean (b : Bool) : DeeplyEqual (.boolean b) (.boolean b)
  /-- Numbers are equal at one place on the line, where both zeros are; `nan` has no place. -/
  | number {m n : Number} {place : Int} (hm : m.position? = some place)
      (hn : n.position? = some place) : DeeplyEqual (.number m) (.number n)
  /-- A text equals itself. -/
  | string (s : String) : DeeplyEqual (.string s) (.string s)
  /-- Arrays are equal item by item. -/
  | array {xs ys : List Value} (hlength : xs.length = ys.length)
      (h : ∀ (i : Nat) (hx : i < xs.length) (hy : i < ys.length), DeeplyEqual xs[i] ys[i]) :
      DeeplyEqual (.array xs) (.array ys)
  /-- Objects are equal if they have the same keys and hold the same under each. -/
  | object {es fs : Entries Value} (hkeys : ∀ key, key ∈ es.keys ↔ key ∈ fs.keys)
      (h : ∀ key x y, (key, x) ∈ es → (key, y) ∈ fs → DeeplyEqual x y) :
      DeeplyEqual (.object es) (.object fs)

/-! ## As it is computed -/

theorem deeplyEqual_of_equals (h : a.equals b = true) (ha : a.Distinct) (hb : b.Distinct) :
    DeeplyEqual a b := by
  induction h using equals_induction with
  | null => exact .null
  | boolean x h => exact .boolean x
  | number m n h =>
    obtain ⟨place, hm, hn⟩ := Number.equals_iff.1 h
    exact .number hm hn
  | string s h => exact .string s
  | array xs ys h ih =>
    rw [Distinct, distinctItems_iff] at ha hb
    obtain ⟨hlength, hall⟩ := equals_array_iff.1 h
    refine .array hlength fun i hx hy => ?_
    exact ih i hx hy (hall i hx hy) (ha _ (List.getElem_mem hx)) (hb _ (List.getElem_mem hy))
  | object es fs h ih =>
    rw [Distinct, distinctEntries_iff] at ha hb
    refine .object (fun key => (keys_perm_of_equals_object ha.1 h).mem_iff) fun key x y hx hy => ?_
    obtain ⟨z, hz, heq⟩ := (equals_object_iff.1 h).2 _ hx
    -- there is one value only under the key
    obtain rfl : y = z := Option.some.inj ((Entries.get?_of_mem hb.1 hy).symm.trans hz)
    exact ih key x y heq hx hy (ha.2 _ hx) (hb.2 _ hy)

theorem equals_of_deeplyEqual (h : DeeplyEqual a b) (ha : a.Distinct) (hb : b.Distinct) :
    a.equals b = true := by
  induction h with
  | null => rfl
  | boolean x => simp [equals]
  | number hm hn => exact Number.equals_iff.2 ⟨_, hm, hn⟩
  | string s => simp [equals]
  | array hlength h ih =>
    rw [Distinct, distinctItems_iff] at ha hb
    refine equals_array_iff.2 ⟨hlength, fun i hx hy => ?_⟩
    exact ih i hx hy (ha _ (List.getElem_mem hx)) (hb _ (List.getElem_mem hy))
  | object hkeys h ih =>
    rename_i es fs
    rw [Distinct, distinctEntries_iff] at ha hb
    have hperm : (Entries.keys es).Perm (Entries.keys fs) :=
      (List.perm_ext_iff_of_nodup ha.1 hb.1).2 hkeys
    refine equals_object_iff.2 ⟨by simpa [Entries.keys] using hperm.length_eq, fun e he => ?_⟩
    obtain ⟨y, hy⟩ := Entries.mem_keys_iff.1 ((hkeys e.1).1 (Entries.mem_keys_iff.2 ⟨e.2, he⟩))
    exact ⟨y, Entries.get?_of_mem hb.1 hy, ih e.1 e.2 y he hy (ha.2 e he) (hb.2 _ hy)⟩

/-- What is computed is deep equality, where no object has a key twice. -/
theorem equals_iff_deeplyEqual (ha : a.Distinct) (hb : b.Distinct) :
    a.equals b = true ↔ DeeplyEqual a b :=
  ⟨fun h => deeplyEqual_of_equals h ha hb, fun h => equals_of_deeplyEqual h ha hb⟩

/-! ## Values that hold `nan` -/

mutual

/-- Whether `nan` is in the value. -/
def holdsNan : Value → Bool
  | .number n => n == .nan
  | .array items => itemsHoldNan items
  | .object entries => entriesHoldNan entries
  | _ => false

/-- Whether `nan` is in one of the items. -/
def itemsHoldNan : List Value → Bool
  | [] => false
  | x :: xs => x.holdsNan || itemsHoldNan xs

/-- Whether `nan` is in one of the held values. -/
def entriesHoldNan : List (String × Value) → Bool
  | [] => false
  | (_, x) :: rest => x.holdsNan || entriesHoldNan rest

end

theorem itemsHoldNan_eq_false_iff :
    itemsHoldNan items = false ↔ ∀ x ∈ items, x.holdsNan = false := by
  induction items with
  | nil => simp [itemsHoldNan]
  | cons x items ih => rw [itemsHoldNan, Bool.or_eq_false_iff, ih, List.forall_mem_cons]

theorem entriesHoldNan_eq_false_iff :
    entriesHoldNan entries = false ↔ ∀ e ∈ entries, e.2.holdsNan = false := by
  induction entries with
  | nil => simp [entriesHoldNan]
  | cons e entries ih => rw [entriesHoldNan, Bool.or_eq_false_iff, ih, List.forall_mem_cons]

/-- What does not hold `nan` is equal to itself. -/
theorem deeplyEqual_self (ha : a.Distinct) (hnan : a.holdsNan = false) : DeeplyEqual a a := by
  induction a using by_parts with
  | null => exact .null
  | boolean b => exact .boolean b
  | number n =>
    cases n with
    | nan => cases hnan
    | infinite negative => exact .number rfl rfl
    | finite negative m => exact .number rfl rfl
  | string s => exact .string s
  | array items ih =>
    rw [Distinct, distinctItems_iff] at ha
    rw [holdsNan, itemsHoldNan_eq_false_iff] at hnan
    refine .array rfl fun i hx _ => ?_
    have hmem := List.getElem_mem hx
    exact ih _ hmem (ha _ hmem) (hnan _ hmem)
  | object entries ih =>
    rw [Distinct, distinctEntries_iff] at ha
    rw [holdsNan, entriesHoldNan_eq_false_iff] at hnan
    refine .object (fun key => Iff.rfl) fun key x y hx hy => ?_
    have heq := (Entries.get?_of_mem ha.1 hx).symm.trans (Entries.get?_of_mem ha.1 hy)
    cases heq
    exact ih _ hx (ha.2 _ hx) (hnan _ hx)

/-- Nothing that holds `nan` is equal to anything. -/
theorem holdsNan_eq_false_of_deeplyEqual (h : DeeplyEqual a b) :
    a.holdsNan = false ∧ b.holdsNan = false := by
  induction h with
  | null => exact ⟨rfl, rfl⟩
  | boolean x => exact ⟨rfl, rfl⟩
  | number hm hn =>
    rename_i m n place
    cases m with
    | nan => cases hm
    | _ =>
      cases n with
      | nan => cases hn
      | _ => exact ⟨rfl, rfl⟩
  | string s => exact ⟨rfl, rfl⟩
  | array hlength h ih =>
    rw [holdsNan, holdsNan, itemsHoldNan_eq_false_iff, itemsHoldNan_eq_false_iff]
    constructor
    · intro x hmem
      obtain ⟨i, hx, rfl⟩ := List.getElem_of_mem hmem
      exact (ih i hx (hlength ▸ hx)).1
    · intro y hmem
      obtain ⟨i, hy, rfl⟩ := List.getElem_of_mem hmem
      exact (ih i (hlength ▸ hy) hy).2
  | object hkeys h ih =>
    rw [holdsNan, holdsNan, entriesHoldNan_eq_false_iff, entriesHoldNan_eq_false_iff]
    constructor
    · intro e he
      obtain ⟨y, hy⟩ := Entries.mem_keys_iff.1 ((hkeys e.1).1 (Entries.mem_keys_iff.2 ⟨e.2, he⟩))
      exact (ih e.1 e.2 y he hy).1
    · intro e he
      obtain ⟨x, hx⟩ := Entries.mem_keys_iff.1 ((hkeys e.1).2 (Entries.mem_keys_iff.2 ⟨e.2, he⟩))
      exact (ih e.1 x e.2 hx he).2

/-- A value equals itself exactly if it does not hold `nan`. -/
theorem equals_self_iff (ha : a.Distinct) : a.equals a = true ↔ a.holdsNan = false := by
  rw [equals_iff_deeplyEqual ha ha]
  constructor
  · intro h
    exact (holdsNan_eq_false_of_deeplyEqual h).1
  · intro h
    exact deeplyEqual_self ha h

end PipeQuery.Value
