import Mathlib.Data.List.Basic
import PipeQuery.Proofs.Value.Equality
import PipeQuery.Value.Path

/-!
# One step into a value

What reading, writing and removing do at one segment of a path.  A value takes a
segment (`Takes`) if something can be written there; `put` writes it, `without`
takes it out, and `under` is what a longer write goes on in.  `set_cons_of_takes`,
`set_cons_of_not_takes` and `remove?_cons` lead paths back to these steps, so that
what is said of paths looks into containers no more.

`child?_put_cases` is the law of a step: after a write at a segment another segment
leads to what was written, if both are the same step, or to what it led to before.

What a path leads to has distinct keys if the value has (`distinct_find?`).
-/

namespace PipeQuery

/-! ## Items at a place -/

section Items

variable {α : Type} {items : List α} {i : Nat} {x : α}

theorem exists_middle (h : items[i]? = some x) :
    ∃ front back, items = front ++ x :: back ∧ front.length = i := by
  obtain ⟨hi, rfl⟩ := List.getElem?_eq_some_iff.1 h
  refine ⟨items.take i, items.drop (i + 1), by simp, ?_⟩
  rw [List.length_take]
  omega

theorem getElem?_take_cons_drop (h : i ≤ items.length) (x : α) (j : Nat) :
    (items.take i ++ x :: items.drop (i + 1))[j]? = if j = i then some x else items[j]? := by
  have hlength : (items.take i).length = i := by simp [h]
  rcases Nat.lt_trichotomy j i with hlt | rfl | hgt
  · rw [List.getElem?_append_left (by omega), List.getElem?_take_of_lt hlt,
      if_neg (Nat.ne_of_lt hlt)]
  · rw [List.getElem?_append_right (by omega), hlength, Nat.sub_self, if_pos rfl]
    rfl
  · obtain ⟨k, rfl⟩ : ∃ k, j = i + 1 + k := ⟨j - (i + 1), by omega⟩
    have hk : i + 1 + k - i = k + 1 := by omega
    rw [List.getElem?_append_right (by omega), hlength, hk, List.getElem?_cons_succ,
      List.getElem?_drop, if_neg (Nat.ne_of_gt hgt)]

theorem eraseIdx_middle (front : List α) (x : α) (back : List α) :
    (front ++ x :: back).eraseIdx front.length = front ++ back := by
  rw [List.eraseIdx_append_of_length_le (Nat.le_refl _), Nat.sub_self]
  rfl

end Items

namespace Value

variable {v w : Value} {segment : Segment} {rest : Path}

/-! ## The steps -/

/-- Something can be written at the segment: the value is an object, or an array with an item or
its end there. -/
def Takes : Value → Segment → Prop
  | .object _, _ => True
  | .array items, .index i => i ≤ items.length
  | _, _ => False

instance (v : Value) (segment : Segment) : Decidable (v.Takes segment) :=
  match v, segment with
  | .object _, _ => isTrue trivial
  | .array items, .index i => inferInstanceAs (Decidable (i ≤ items.length))
  | .array _, .field _ => isFalse id
  | .null, _ | .boolean _, _ | .number _, _ | .string _, _ => isFalse id

/-- The value with something else at the segment. -/
def put : Value → Segment → Value → Value
  | .object entries, segment, w => .object (Entries.insert segment.key w entries)
  | .array items, .index i, w => .array (items.take i ++ w :: items.drop (i + 1))
  | v, _, _ => v

/-- The value without what is at the segment. -/
def without : Value → Segment → Value
  | .object entries, segment => .object (Entries.erase segment.key entries)
  | .array items, .index i => .array (items.eraseIdx i)
  | v, _ => v

/-- What a longer write goes on in: a container that is there, or a new object. -/
def under (v : Value) (segment : Segment) : Value := ((v.child? segment).getD .null).orObject

theorem takes_of_child? (h : v.child? segment = some w) : v.Takes segment := by
  cases v with
  | object entries => exact trivial
  | array items =>
    cases segment with
    | field name => cases h
    | index i =>
      obtain ⟨hi, -⟩ := List.getElem?_eq_some_iff.1 h
      exact Nat.le_of_lt hi
  | _ => cases h

theorem child?_put_cases (h : v.Takes segment) (w : Value) (other : Segment) :
    (v.put segment w).child? other = some w ∧ v.child? other = v.child? segment
        ∧ segment.key = other.key
      ∨ (v.put segment w).child? other = v.child? other := by
  cases v with
  | object entries =>
    by_cases hkey : segment.key = other.key
    · exact .inl ⟨by simp [put, child?, Entries.get?_insert, hkey], by simp [child?, hkey], hkey⟩
    · exact .inr (by simp [put, child?, Entries.get?_insert, hkey])
  | array items =>
    cases segment with
    | field name => exact h.elim
    | index i =>
      cases other with
      | field name => exact .inr rfl
      | index j =>
        have hget := getElem?_take_cons_drop h w j
        by_cases hj : j = i
        · subst hj
          exact .inl ⟨by rwa [if_pos rfl] at hget, rfl, rfl⟩
        · exact .inr (by rwa [if_neg hj] at hget)
  | _ => exact h.elim

theorem child?_put_self (h : v.Takes segment) (w : Value) :
    (v.put segment w).child? segment = some w := by
  cases v with
  | object entries => simp [put, child?, Entries.get?_insert]
  | array items =>
    cases segment with
    | field name => exact h.elim
    | index i =>
      have hget := getElem?_take_cons_drop h w i
      rwa [if_pos rfl] at hget
  | _ => exact h.elim

/-- After a write at a segment there is a place wherever there was one. -/
theorem takes_put {other : Segment} (h : v.Takes segment) (hother : v.Takes other) (w : Value) :
    (v.put segment w).Takes other := by
  cases v with
  | object entries => exact trivial
  | array items =>
    cases segment with
    | field name => exact h.elim
    | index i =>
      cases other with
      | field name => exact hother.elim
      | index j =>
        have hi : i ≤ items.length := h
        have hj : j ≤ items.length := hother
        show j ≤ (items.take i ++ w :: items.drop (i + 1)).length
        rw [List.length_append, List.length_take, List.length_cons, List.length_drop]
        omega
  | _ => exact h.elim

/-- Of two writes at a segment the second counts. -/
theorem put_put (h : v.Takes segment) (w u : Value) :
    (v.put segment w).put segment u = v.put segment u := by
  cases v with
  | object entries => exact congrArg Value.object (Entries.insert_insert _ _ _ _)
  | array items =>
    cases segment with
    | field name => exact h.elim
    | index i =>
      have hlength : (items.take i).length = i := by
        rw [List.length_take]
        exact Nat.min_eq_left h
      have hdrop : (items.take i ++ w :: items.drop (i + 1)).drop (i + 1) = items.drop (i + 1) := by
        rw [List.append_cons]
        exact List.drop_left' (by simp [hlength])
      refine congrArg Value.array ?_
      rw [List.take_left' hlength, hdrop]
  | _ => exact h.elim

/-- Writing what is at a segment changes nothing. -/
theorem put_child? (h : v.child? segment = some w) : v.put segment w = v := by
  cases v with
  | object entries => exact congrArg Value.object (Entries.insert_of_get? h)
  | array items =>
    cases segment with
    | field name => cases h
    | index i =>
      obtain ⟨front, back, rfl, rfl⟩ := exists_middle (show items[i]? = some w from h)
      exact congrArg Value.array (by simp)
  | _ => cases h

/-! ## Containers -/

theorem isContainer_of_child? (h : v.child? segment = some w) : v.isContainer = true := by
  cases v with
  | array items => rfl
  | object entries => rfl
  | _ => cases h

theorem isContainer_put (v : Value) (segment : Segment) (w : Value) :
    (v.put segment w).isContainer = v.isContainer := by
  cases v with
  | array items => cases segment <;> rfl
  | _ => rfl

theorem isContainer_orObject (v : Value) : v.orObject.isContainer = true := by
  cases v <;> rfl

theorem orObject_of_isContainer (h : v.isContainer = true) : v.orObject = v := by
  simp [orObject, h]

theorem under_of_child? (h : v.child? segment = some w) (hw : w.isContainer = true) :
    v.under segment = w := by
  rw [under, h]
  exact orObject_of_isContainer hw

theorem under_congr {other : Segment} (h : v.child? segment = w.child? other) :
    v.under segment = w.under other := by
  rw [under, under, h]

theorem under_put (h : v.Takes segment) (w : Value) :
    (v.put segment w).under segment = w.orObject := by
  rw [under, child?_put_self h]
  rfl

theorem under_cases (v : Value) (segment : Segment) :
    v.child? segment = some (v.under segment) ∨ v.under segment = .object [] := by
  unfold under
  cases v.child? segment with
  | none => exact .inr rfl
  | some w =>
    cases w with
    | array items => exact .inl rfl
    | object entries => exact .inl rfl
    | _ => exact .inr rfl

/-! ## Paths by their steps -/

theorem find?_cons (segment : Segment) (rest : Path) (v : Value) :
    v.find? (segment :: rest) = (v.child? segment).bind (find? rest) := rfl

theorem isContainer_of_find? {path : Path} (h : v.find? path = some w) (hw : w.isContainer = true) :
    v.isContainer = true := by
  cases path with
  | nil =>
    cases h
    exact hw
  | cons segment rest =>
    obtain ⟨u, hu, -⟩ := Option.bind_eq_some_iff.1 h
    exact isContainer_of_child? hu

/-- Below a step a longer path finds what it finds behind the step. -/
theorem find?_under (v : Value) (segment next : Segment) (rest : Path) :
    (v.under segment).find? (next :: rest)
      = (v.child? segment).bind (find? (next :: rest)) := by
  unfold under
  cases v.child? segment with
  | none => rfl
  | some w => cases w <;> rfl

theorem set_cons_of_takes (h : v.Takes segment) (x : Value) :
    v.set (segment :: rest) x = v.put segment ((v.under segment).set rest x) := by
  have hset : ∀ u : Value, (if rest.isEmpty then x else u.set rest x) = u.set rest x := by
    intro u
    cases rest with
    | nil => simp [set]
    | cons next rest => rfl
  cases v with
  | object entries =>
    rw [set]
    exact congrArg (fun inner => (Value.object entries).put segment inner) (hset _)
  | array items =>
    cases segment with
    | field name => exact h.elim
    | index i =>
      rw [set, if_pos (show i ≤ items.length from h)]
      exact congrArg (fun inner => (Value.array items).put (.index i) inner) (hset _)
  | _ => exact h.elim

theorem set_cons_of_not_takes (h : ¬ v.Takes segment) (x : Value) :
    v.set (segment :: rest) x = v := by
  cases v with
  | object entries => exact absurd trivial h
  | array items =>
    cases segment with
    | field name => simp [set]
    | index i => rw [set, if_neg (show ¬ i ≤ items.length from h)]
  | _ => simp [set]

theorem remove?_cons (segment : Segment) (rest : Path) (v : Value) :
    v.remove? (segment :: rest) = (v.child? segment).bind fun inner =>
      if rest.isEmpty then some (inner, v.without segment)
      else (inner.remove? rest).map fun (removed, left) => (removed, v.put segment left) := by
  cases v with
  | object entries => rfl
  | array items =>
    cases segment with
    | field name => rfl
    | index i =>
      rw [remove?]
      refine Option.bind_congr fun inner hinner => ?_
      obtain ⟨front, back, rfl, rfl⟩ := exists_middle hinner
      simp [without, put]
  | _ => rfl

/-! ## Paths in text -/

/-- A field that reads as something else than `null` is there. -/
theorem find?_of_field {path : String} (h : v.field path = w) (hw : w.isNull = false) :
    v.find? (.ofText path) = some w := by
  unfold field get at h
  cases hfind : v.find? (.ofText path) with
  | none =>
    rw [hfind] at h
    subst h
    cases hw
  | some u =>
    rw [hfind] at h
    exact congrArg some h

theorem field_of_find? {path : String} (h : v.find? (.ofText path) = some w) : v.field path = w := by
  rw [field, get, h]
  rfl

/-! ## Distinct keys below a path -/

theorem distinct_child? (hv : v.Distinct) (h : v.child? segment = some w) : w.Distinct := by
  cases v with
  | array items =>
    cases segment with
    | field name => cases h
    | index i =>
      rw [Distinct, distinctItems_iff] at hv
      exact hv w (List.mem_of_getElem? h)
  | object entries =>
    rw [Distinct, distinctEntries_iff] at hv
    rw [child?] at h
    exact hv.2 _ (Entries.mem_of_get? h)
  | _ => cases h

theorem distinct_find? {path : Path} (hv : v.Distinct) (h : v.find? path = some w) :
    w.Distinct := by
  induction path generalizing v with
  | nil =>
    cases h
    exact hv
  | cons segment rest ih =>
    obtain ⟨u, hu, hw⟩ := Option.bind_eq_some_iff.1 h
    exact ih (distinct_child? hv hu) hw

theorem distinct_field (hv : v.Distinct) (path : String) : (v.field path).Distinct := by
  unfold field get
  cases hfind : v.find? (.ofText path) with
  | none => trivial
  | some w => exact distinct_find? hv hfind

end Value

end PipeQuery
