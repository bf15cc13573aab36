import PipeQuery.Pipeline.Run
import PipeQuery.Proofs.Value.DeepEquality
import PipeQuery.Proofs.Value.Index

/-!
# Distinct items

Items without repetitions are found through an index, which looks at the values of one
bucket only.  `firsts` is what they should be: each item is compared with all before it,
and kept if it equals none of them.  `distinct_keeps_firsts` says that the two are one.

Items are taken in turn.  The index has the items that were kept so far (`Index.Keeps`),
and an item equals one that was kept if it equals any that came, since equality is
transitive.
-/

namespace PipeQuery.Value

variable {index : Index} {kept done items xs : List Value} {x : Value}

/-- The items that no earlier item equals, in their order. -/
def firsts (items : List Value) : List Value :=
  (items.zipIdx.filter fun p => (items.take p.2).all fun y => !y.equals p.1).map Prod.fst

/-! ## One item after the other -/

/-- The items that neither an item that is done nor an earlier one equals. -/
def firstsAfter (done : List Value) : List Value → List Value
  | [] => []
  | x :: xs =>
    if done.all fun y => !y.equals x then x :: firstsAfter (done ++ [x]) xs
    else firstsAfter (done ++ [x]) xs

theorem map_filter_zipIdx_eq_firstsAfter (done items : List Value) :
    ((items.zipIdx done.length).filter
        fun p => ((done ++ items).take p.2).all fun y => !y.equals p.1).map Prod.fst
      = firstsAfter done items := by
  induction items generalizing done with
  | nil => rfl
  | cons x xs ih =>
    have hrest := ih (done ++ [x])
    rw [List.length_append, List.append_assoc] at hrest
    rw [List.zipIdx_cons, List.filter_cons, List.take_left' rfl, firstsAfter, ← hrest]
    split <;> rfl

theorem firsts_eq_firstsAfter (items : List Value) : firsts items = firstsAfter [] items :=
  map_filter_zipIdx_eq_firstsAfter [] items

theorem of_mem_firstsAfter (h : x ∈ firstsAfter done items) :
    x ∈ items ∧ ∀ y ∈ done, y.equals x = false := by
  induction items generalizing done with
  | nil => cases h
  | cons z zs ih =>
    have hlater : x ∈ firstsAfter (done ++ [z]) zs →
        x ∈ z :: zs ∧ ∀ y ∈ done, y.equals x = false := by
      intro h
      obtain ⟨hmem, hne⟩ := ih h
      exact ⟨List.mem_cons_of_mem _ hmem, fun y hy => hne y (List.mem_append_left _ hy)⟩
    rw [firstsAfter] at h
    split at h
    next hall =>
      rcases List.mem_cons.1 h with rfl | h
      · exact ⟨List.mem_cons_self, fun y hy => by simpa using List.all_eq_true.1 hall y hy⟩
      · exact hlater h
    next => exact hlater h

theorem pairwise_firstsAfter (done items : List Value) :
    (firstsAfter done items).Pairwise fun y x => y.equals x = false := by
  induction items generalizing done with
  | nil => exact .nil
  | cons x xs ih =>
    rw [firstsAfter]
    split
    next =>
      refine List.pairwise_cons.2 ⟨fun z hz => ?_, ih _⟩
      exact (of_mem_firstsAfter hz).2 x (by simp)
    next => exact ih _

theorem firstsAfter_eq_self (hdone : ∀ y ∈ done, ∀ x ∈ items, y.equals x = false)
    (hitems : items.Pairwise fun y x => y.equals x = false) : firstsAfter done items = items := by
  induction items generalizing done with
  | nil => rfl
  | cons x xs ih =>
    obtain ⟨hx, hxs⟩ := List.pairwise_cons.1 hitems
    have hall : (done.all fun y => !y.equals x) = true :=
      List.all_eq_true.2 fun y hy => by simp [hdone y hy x List.mem_cons_self]
    rw [firstsAfter, if_pos hall, ih ?_ hxs]
    intro y hy z hz
    rcases List.mem_append.1 hy with hy | hy
    · exact hdone y hy z (List.mem_cons_of_mem _ hz)
    · rw [List.mem_singleton.1 hy]
      exact hx z hz

/-- No item of the firsts is equal to a later one, so that they are their own. -/
theorem firsts_firsts (items : List Value) : firsts (firsts items) = firsts items := by
  rw [firsts_eq_firstsAfter (firsts items), firsts_eq_firstsAfter items]
  exact firstsAfter_eq_self (by simp) (pairwise_firstsAfter [] items)

/-- What equals nothing is always kept. -/
theorem filter_firsts {p : Value → Bool}
    (h : ∀ x ∈ items, p x = true → ∀ y ∈ items, y.equals x = false) :
    (firsts items).filter p = items.filter p := by
  have hkept : ∀ e ∈ items.zipIdx,
      (p e.1 && (items.take e.2).all fun y => !y.equals e.1) = p e.1 := by
    intro e he
    cases hp : p e.1 with
    | false => rfl
    | true =>
      have hmem : e.1 ∈ items := List.fst_mem_of_mem_zipIdx he
      rw [Bool.true_and, List.all_eq_true]
      intro y hy
      rw [h _ hmem hp y (List.mem_of_mem_take hy)]
      rfl
  have hfst : items.zipIdx.map Prod.fst = items := List.zipIdx_map_fst 0 items
  calc (firsts items).filter p
      = (items.zipIdx.filter fun e => p e.1).map Prod.fst := by
        rw [firsts, List.filter_map, List.filter_filter]
        exact congrArg (List.map Prod.fst) (List.filter_congr hkept)
    _ = items.filter p := by
        conv_rhs => rw [← hfst, List.filter_map]
        rfl

/-! ## Through the index -/

/-- The index numbers the items that were kept of those that are done: no other is needed to tell
what equals an item that is done. -/
structure Index.Keeps (index : Index) (kept done : List Value) : Prop where
  /-- The index numbers the kept items. -/
  numbers : index.Numbers kept
  /-- They are among those that are done. -/
  subset : ∀ w ∈ kept, w ∈ done
  /-- What equals an item that is done equals one that was kept. -/
  covers : ∀ y ∈ done, ∀ z, y.equals z = true → ∃ w ∈ kept, w.equals z = true

theorem Index.keeps_empty : Index.empty.Keeps [] [] where
  numbers := numbers_empty
  subset := fun _ hw => hw
  covers := fun _ hy => absurd hy List.not_mem_nil

/-- An item that equals one of the index is not kept. -/
theorem Index.Keeps.found (h : index.Keeps kept done) {w : Value} (hw : w ∈ kept)
    (heq : w.equals x = true) : index.Keeps kept (done ++ [x]) where
  numbers := h.numbers
  subset := fun w hw => List.mem_append_left _ (h.subset w hw)
  covers := by
    intro y hy z hyz
    rcases List.mem_append.1 hy with hy | hy
    · exact h.covers y hy z hyz
    · rw [List.mem_singleton.1 hy] at hyz
      exact ⟨w, hw, equals_trans heq hyz⟩

/-- An item that is new to the index is kept. -/
theorem Index.Keeps.append (h : index.Keeps kept done) (x : Value) :
    (index.append x).Keeps (kept ++ [x]) (done ++ [x]) where
  numbers := h.numbers.append x
  subset := by
    intro w hw
    rcases List.mem_append.1 hw with hw | hw
    · exact List.mem_append_left _ (h.subset w hw)
    · exact List.mem_append_right _ hw
  covers := by
    intro y hy z hyz
    rcases List.mem_append.1 hy with hy | hy
    · obtain ⟨w, hw, heq⟩ := h.covers y hy z hyz
      exact ⟨w, List.mem_append_left _ hw, heq⟩
    · exact ⟨y, List.mem_append_right _ hy, hyz⟩

/-- The index takes an item for new exactly if it equals none that is done. -/
theorem Index.Keeps.insert_cases (h : index.Keeps kept done) (hdone : ∀ y ∈ done, y.Distinct)
    (hx : x.Distinct) :
    (∃ slot, index.insert x = (slot, false, index) ∧ index.Keeps kept (done ++ [x])
        ∧ (done.all fun y => !y.equals x) = false)
      ∨ ∃ slot, index.insert x = (slot, true, index.append x)
        ∧ (index.append x).Keeps (kept ++ [x]) (done ++ [x])
        ∧ (done.all fun y => !y.equals x) = true := by
  rcases Index.insert_cases h.numbers (fun w hw => hdone w (h.subset w hw)) hx with
    ⟨slot, w, hslot, heq, hinsert⟩ | ⟨hne, hinsert⟩
  · have hw : w ∈ kept := List.mem_of_getElem? hslot
    refine .inl ⟨slot, hinsert, h.found hw heq, ?_⟩
    rw [List.all_eq_false]
    exact ⟨w, h.subset w hw, by simp [heq]⟩
  · refine .inr ⟨kept.length, hinsert, h.append x, ?_⟩
    rw [List.all_eq_true]
    intro y hy
    rw [Bool.not_eq_true', Bool.eq_false_iff]
    intro heq
    obtain ⟨w, hw, hwx⟩ := h.covers y hy x heq
    rw [hne w hw] at hwx
    cases hwx

theorem distinctFrom_eq_firstsAfter (h : index.Keeps kept done) (hdone : ∀ y ∈ done, y.Distinct)
    (hxs : ∀ x ∈ xs, x.Distinct) : distinctFrom index xs = firstsAfter done xs := by
  induction xs generalizing index kept done with
  | nil => rfl
  | cons x xs ih =>
    obtain ⟨hx, hxs⟩ := List.forall_mem_cons.1 hxs
    have hdone' : ∀ y ∈ done ++ [x], y.Distinct := by
      intro y hy
      rcases List.mem_append.1 hy with hy | hy
      · exact hdone y hy
      · rwa [List.mem_singleton.1 hy]
    rw [distinctFrom, firstsAfter]
    rcases h.insert_cases hdone hx with
      ⟨slot, hinsert, hkeeps, hall⟩ | ⟨slot, hinsert, hkeeps, hall⟩
    · rw [hinsert, hall]
      exact ih hkeeps hdone' hxs
    · rw [hinsert, hall]
      exact congrArg (x :: ·) (ih hkeeps hdone' hxs)

theorem distinct_eq_firsts (h : ∀ x ∈ items, x.Distinct) : distinct items = firsts items := by
  rw [firsts_eq_firstsAfter]
  exact distinctFrom_eq_firstsAfter Index.keeps_empty (by simp) h

theorem distinct_distinct (h : ∀ x ∈ items, x.Distinct) :
    distinct (distinct items) = distinct items := by
  have hfirsts : ∀ x ∈ firsts items, x.Distinct := by
    intro x hx
    rw [firsts_eq_firstsAfter] at hx
    exact h x (of_mem_firstsAfter hx).1
  rw [distinct_eq_firsts h, distinct_eq_firsts hfirsts, firsts_firsts]

theorem filter_holdsNan_firsts (h : ∀ x ∈ items, x.Distinct) :
    (firsts items).filter holdsNan = items.filter holdsNan := by
  refine filter_firsts fun x hx hnan y hy => ?_
  rw [Bool.eq_false_iff]
  intro heq
  have hequal := (equals_iff_deeplyEqual (h y hy) (h x hx)).1 heq
  rw [(holdsNan_eq_false_of_deeplyEqual hequal).2] at hnan
  cases hnan

end PipeQuery.Value

namespace PipeQuery.Query

open Value

/-- As an operator, `distinct` does what the stage does. -/
theorem applyTo_distinct [Draws] (v : Value) :
    Operator.distinct.applyTo v = distinctValues none v := by
  cases v <;> rfl

theorem distinctValues_none_twice {v : Value} (hv : v.Distinct) :
    distinctValues none (distinctValues none v) = distinctValues none v := by
  cases v with
  | array items =>
    rw [Value.Distinct, distinctItems_iff] at hv
    exact congrArg Value.array (distinct_distinct hv)
  | _ => rfl

/-- Items without repetitions are those that no earlier item equals.  Equal are those that hold the
same, in objects whatever the order of keys, and of numbers the two zeros; an item that holds `nan`
equals nothing and is always kept.  So a second time changes nothing, and the number of distinct
items is how many are kept.

No object in an item has a key twice, or equality would not go both ways. -/
theorem distinct_keeps_firsts [Draws] (engine : Engine) (items : List Value)
    (hitems : ∀ x ∈ items, x.Distinct) :
    Value.distinct items = firsts items
      ∧ (∀ x ∈ items, ∀ y ∈ items, x.equals y = true ↔ DeeplyEqual x y)
      ∧ (∀ x y : Value, DeeplyEqual x y → x.holdsNan = false ∧ y.holdsNan = false)
      ∧ (firsts items).filter holdsNan = items.filter holdsNan
      ∧ (∀ v : Value, v.Distinct →
          runStages engine [.distinct none, .distinct none] v = runStages engine [.distinct none] v
            ∧ Operator.distinct.applyTo (Operator.distinct.applyTo v)
              = Operator.distinct.applyTo v)
      ∧ runStages engine [.distinct none] (.array items) = .ok (.array (firsts items))
      ∧ Operator.distinct.applyTo (.array items) = .array (firsts items)
      ∧ Operator.dcount.applyTo (.array items) = .ofCount (firsts items).length := by
  have hfirsts := distinct_eq_firsts hitems
  refine ⟨hfirsts, fun x hx y hy => equals_iff_deeplyEqual (hitems x hx) (hitems y hy),
    fun x y => holdsNan_eq_false_of_deeplyEqual, filter_holdsNan_firsts hitems,
    fun v hv => ⟨?_, ?_⟩, ?_, ?_, ?_⟩
  · show Except.ok (distinctValues none (distinctValues none v)) = .ok (distinctValues none v)
    rw [distinctValues_none_twice hv]
  · rw [applyTo_distinct, applyTo_distinct, distinctValues_none_twice hv]
  · show Except.ok (Value.array (Value.distinct items)) = _
    rw [hfirsts]
  · rw [applyTo_distinct]
    exact congrArg Value.array hfirsts
  · show Value.ofCount (Value.distinct items).length = _
    rw [hfirsts]

/-- Of two zeros and of two objects with other orders of keys one is kept, and both that hold
`nan`. -/
theorem distinct_keeps_firsts_nan :
    (∀ x ∈ [Value.number (.finite false .zero), .array [.number .nan], .number (.finite true .zero),
        .object [("a", .null), ("b", .null)], .array [.number .nan],
        .object [("b", .null), ("a", .null)]], x.Distinct)
      ∧ Value.distinct [.number (.finite false .zero), .array [.number .nan],
          .number (.finite true .zero), .object [("a", .null), ("b", .null)], .array [.number .nan],
          .object [("b", .null), ("a", .null)]]
        = [.number (.finite false .zero), .array [.number .nan],
            .object [("a", .null), ("b", .null)], .array [.number .nan]] := by
  have h : ∀ x ∈ [Value.number (.finite false .zero), .array [.number .nan],
      .number (.finite true .zero), .object [("a", .null), ("b", .null)], .array [.number .nan],
      .object [("b", .null), ("a", .null)]], x.Distinct := by
    simp [Value.Distinct, DistinctItems, DistinctEntries, Entries.keys]
  exact ⟨h, (distinct_keeps_firsts .standard _ h).1.trans rfl⟩

end PipeQuery.Query
