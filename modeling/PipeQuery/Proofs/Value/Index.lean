import PipeQuery.Proofs.Value.Equality

/-!
# Numbered values

An index numbers values in the order in which they came (`Index.Numbers`): the bucket
of a text holds those with this canonical text, each with its number.  Putting a value
in finds one that equals it, or appends it (`Index.insert_cases`).

Only the values of one bucket are looked at.  As equal values have one canonical text,
no equal value is missed.
-/

namespace PipeQuery.Value.Index

variable {index : Index} {values : List Value} {v : Value}

/-- The index numbers values in their order. -/
structure Numbers (index : Index) (values : List Value) : Prop where
  /-- The next number is how many there are. -/
  size : index.size = values.length
  /-- A bucket holds the values with its canonical text, with their numbers. -/
  mem_bucket : ∀ key v slot, (v, slot) ∈ index.bucket key
    ↔ values[slot]? = some v ∧ String.ofList v.canonical = key

theorem numbers_empty : Numbers .empty [] where
  size := rfl
  mem_bucket := by simp [empty, bucket]

/-- The index with one more value in the bucket of its canonical text. -/
def append (index : Index) (v : Value) : Index :=
  let key := String.ofList v.canonical
  ⟨index.buckets.insert key (index.bucket key ++ [(v, index.size)]), index.size + 1⟩

theorem bucket_append (index : Index) (v : Value) (key : String) :
    (index.append v).bucket key
      = if String.ofList v.canonical = key then index.bucket key ++ [(v, index.size)]
        else index.bucket key := by
  unfold append bucket
  rw [Entries.get?_insert]
  split
  next hkey =>
    subst hkey
    rfl
  next hkey => rfl

theorem mem_bucket_append {key : String} {w : Value} {slot : Nat} :
    (w, slot) ∈ (index.append v).bucket key
      ↔ (w, slot) ∈ index.bucket key
        ∨ slot = index.size ∧ w = v ∧ String.ofList v.canonical = key := by
  rw [bucket_append]
  split
  next hkey => simp [hkey, and_comm]
  next hkey => simp [hkey]

theorem getElem?_concat_eq_some_iff {α : Type} {xs : List α} {x y : α} {i : Nat} :
    (xs ++ [x])[i]? = some y ↔ xs[i]? = some y ∨ i = xs.length ∧ y = x := by
  rw [List.getElem?_append]
  split
  next hi => simp [Nat.ne_of_lt hi]
  next hi =>
    have hnone : xs[i]? = none := List.getElem?_eq_none (Nat.le_of_not_lt hi)
    rw [List.getElem?_singleton, hnone]
    split
    next hlast =>
      have hi : i = xs.length := by omega
      simp [hi, eq_comm]
    next hlast =>
      have hi : i ≠ xs.length := by omega
      simp [hi]

theorem Numbers.append (h : index.Numbers values) (v : Value) :
    (index.append v).Numbers (values ++ [v]) where
  size := by
    rw [List.length_append, ← h.size]
    rfl
  mem_bucket := by
    intro key w slot
    rw [mem_bucket_append, h.mem_bucket, getElem?_concat_eq_some_iff, h.size]
    constructor
    · rintro (⟨hw, hkey⟩ | ⟨hslot, rfl, hkey⟩)
      · exact ⟨.inl hw, hkey⟩
      · exact ⟨.inr ⟨hslot, rfl⟩, hkey⟩
    · rintro ⟨hw | ⟨hslot, rfl⟩, hkey⟩
      · exact .inl ⟨hw, hkey⟩
      · exact .inr ⟨hslot, rfl, hkey⟩

theorem insert_eq (index : Index) (v : Value) :
    index.insert v
      = ((index.bucket (String.ofList v.canonical)).find? fun e => e.1.equals v).elim
        (index.size, true, index.append v) fun e => (e.2, false, index) := by
  unfold insert
  dsimp only
  cases (index.bucket (String.ofList v.canonical)).find? fun e => e.1.equals v with
  | some found => rfl
  | none => rfl

/-- Putting a value in finds a value that equals it, with its number, or there is none and the
value is appended. -/
theorem insert_cases (h : index.Numbers values) (hvalues : ∀ w ∈ values, w.Distinct)
    (hv : v.Distinct) :
    (∃ slot w, values[slot]? = some w ∧ w.equals v = true ∧ index.insert v = (slot, false, index))
      ∨ (∀ w ∈ values, w.equals v = false)
        ∧ index.insert v = (values.length, true, index.append v) := by
  rw [insert_eq]
  cases hfind : (index.bucket (String.ofList v.canonical)).find? fun e => e.1.equals v with
  | some found =>
    obtain ⟨w, slot⟩ := found
    have hw := (h.mem_bucket _ w slot).1 (List.mem_of_find?_eq_some hfind)
    have heq := List.find?_some hfind
    exact .inl ⟨slot, w, hw.1, heq, rfl⟩
  | none =>
    refine .inr ⟨fun w hw => ?_, by rw [← h.size]; rfl⟩
    rw [Bool.eq_false_iff]
    intro heq
    obtain ⟨slot, hslot⟩ := List.getElem?_of_mem hw
    have hkey := congrArg String.ofList (canonical_eq_of_equals heq (hvalues w hw) hv)
    exact List.find?_eq_none.1 hfind _ ((h.mem_bucket _ w slot).2 ⟨hslot, hkey⟩) heq

end PipeQuery.Value.Index
