import PipeQuery.Pipeline.Run
import PipeQuery.Proofs.Sorting
import PipeQuery.Proofs.Value.Order

/-!
# Rows in order

Rows are in order by several fields if the first field at which they do not tie puts
them so (`InOrder`).  `orderBy_sorts_stably` says that ordering rearranges rows into
such an order and leaves rows that tie as they came, if no row holds `nan` at a field
of the order.  As `nan` ties with every number, nothing of the kind holds where one
does.
-/

namespace PipeQuery.Query

open Std Value

/-! ## Orders -/

/-- Two rows tie at a field. -/
def OrderField.Ties (f : OrderField) (a b : Value) : Prop :=
  (a.field f.field).compare (b.field f.field) = .eq

/-- A row has to stand before another by a field: with the lesser value there if the order is
ascending, with the greater one if it is descending. -/
def OrderField.Precedes (f : OrderField) (a b : Value) : Prop :=
  match f.direction with
  | .asc => (a.field f.field).compare (b.field f.field) = .lt
  | .desc => (a.field f.field).compare (b.field f.field) = .gt

/-- Two rows tie at all fields. -/
def Tied (fields : List OrderField) (a b : Value) : Prop := ∀ f ∈ fields, f.Ties a b

instance (fields : List OrderField) (a b : Value) : Decidable (Tied fields a b) :=
  inferInstanceAs (Decidable (∀ f ∈ fields, (a.field f.field).compare (b.field f.field) = .eq))

/-- A row may stand before another. -/
inductive InOrder : List OrderField → Value → Value → Prop where
  /-- They tie at all fields. -/
  | tied {a b : Value} : InOrder [] a b
  /-- The first field decides. -/
  | first {f : OrderField} {fields : List OrderField} {a b : Value} :
    f.Precedes a b → InOrder (f :: fields) a b
  /-- They tie at the first field and the others decide. -/
  | later {f : OrderField} {fields : List OrderField} {a b : Value} :
    f.Ties a b → InOrder fields a b → InOrder (f :: fields) a b

/-- A row holds a value with a place in the order at each field. -/
def HasPlaces (fields : List OrderField) (row : Value) : Prop :=
  ∀ f ∈ fields, row.field f.field ≠ nan

variable {f : OrderField} {fields : List OrderField} {rows : List Value} {a b : Value}

theorem compare_eq_eq_iff : f.compare a b = .eq ↔ f.Ties a b := by
  unfold OrderField.compare OrderField.Ties
  cases f.direction with
  | asc => rfl
  | desc => exact Ordering.swap_eq_eq

theorem compare_eq_lt_iff : f.compare a b = .lt ↔ f.Precedes a b := by
  unfold OrderField.compare OrderField.Precedes
  cases f.direction with
  | asc => rfl
  | desc => exact Ordering.swap_eq_lt

/-- Rows that compare as equal tie at all fields. -/
theorem compareRows_eq_eq_iff : compareRows fields a b = .eq ↔ Tied fields a b := by
  induction fields with
  | nil => simp [compareRows, Tied]
  | cons f fields ih =>
    simp only [compareRows, Ordering.then_eq_eq, ih, compare_eq_eq_iff, Tied,
      List.forall_mem_cons]

/-- A row that does not compare as greater may stand first. -/
theorem inOrder_of_isLE (h : (compareRows fields a b).isLE) : InOrder fields a b := by
  induction fields with
  | nil => exact .tied
  | cons f fields ih =>
    rw [compareRows] at h
    cases hf : f.compare a b with
    | lt => exact .first (compare_eq_lt_iff.1 hf)
    | eq =>
      rw [hf] at h
      exact .later (compare_eq_eq_iff.1 hf) (ih h)
    | gt =>
      rw [hf] at h
      contradiction

/-! ## The line -/

/-- The order of what rows hold at a path, as it stands on the line. -/
def fieldOnLine (path : String) (a b : Value) : Ordering :=
  (a.field path).compareOnLine (b.field path)

instance (path : String) : TransCmp (fieldOnLine path) where
  eq_swap := by
    intro a b
    exact @OrientedCmp.eq_swap _ Value.compareOnLine _ _ _
  isLE_trans := by
    intro a b c hab hbc
    exact @TransCmp.isLE_trans _ Value.compareOnLine _ _ _ _ hab hbc

/-- The order of rows by a field, as their values stand on the line. -/
def OrderField.compareOnLine (f : OrderField) : Value → Value → Ordering :=
  match f.direction with
  | .asc => fieldOnLine f.field
  | .desc => fun a b => fieldOnLine f.field b a

instance (f : OrderField) : TransCmp f.compareOnLine := by
  unfold OrderField.compareOnLine
  cases f.direction <;> infer_instance

/-- The order of rows by several fields, as their values stand on the line. -/
def compareRowsOnLine : List OrderField → Value → Value → Ordering
  | [] => fun _ _ => .eq
  | f :: fields => compareLex f.compareOnLine (compareRowsOnLine fields)

instance instTransCmpRowsOnLine : ∀ fields, TransCmp (compareRowsOnLine fields)
  | [] => { eq_swap := rfl, isLE_trans := fun h _ => h }
  | f :: fields =>
    have := instTransCmpRowsOnLine fields
    inferInstanceAs (TransCmp (compareLex f.compareOnLine (compareRowsOnLine fields)))

theorem compareRows_eq_onLine (ha : HasPlaces fields a) (hb : HasPlaces fields b) :
    compareRows fields a b = compareRowsOnLine fields a b := by
  induction fields with
  | nil => rfl
  | cons f fields ih =>
    obtain ⟨hfa, ha⟩ := List.forall_mem_cons.1 ha
    obtain ⟨hfb, hb⟩ := List.forall_mem_cons.1 hb
    have hf : f.compare a b = f.compareOnLine a b := by
      unfold OrderField.compare OrderField.compareOnLine
      cases f.direction with
      | asc => exact compare_eq_compareOnLine hfa hfb
      | desc => exact (compare_swap _ _).symm.trans (compare_eq_compareOnLine hfb hfa)
    rw [compareRows, hf, ih ha hb]
    rfl

/-! ## Ordered rows -/

/-- Rows in order: the same ones as before, each where it may stand, and those that tie as they
came. -/
structure OrderedFrom (fields : List OrderField) (rows sorted : List Value) : Prop where
  /-- No row is lost or new. -/
  perm : sorted.Perm rows
  /-- A row stands before another only if it may. -/
  inOrder : sorted.Pairwise (InOrder fields)
  /-- The rows that tie with any one of them are in the order they had. -/
  stable : ∀ row ∈ rows, sorted.filter (Tied fields row) = rows.filter (Tied fields row)

theorem orderRows_eq_onLine (h : ∀ row ∈ rows, HasPlaces fields row) :
    orderRows fields rows = sortStable (fun a b => compareRowsOnLine fields a b == .lt) rows :=
  sortStable_congr fun a ha b hb => by rw [compareRows_eq_onLine (h a ha) (h b hb)]

theorem orderRows_perm (fields : List OrderField) (rows : List Value) :
    (orderRows fields rows).Perm rows :=
  sortStable_perm _ rows

theorem pairwise_orderRows (h : ∀ row ∈ rows, HasPlaces fields row) :
    (orderRows fields rows).Pairwise fun a b => (compareRows fields a b).isLE := by
  have hmem := fun {row} => (orderRows_perm fields rows).mem_iff (a := row)
  have hline := @pairwise_sortStable _ (compareRowsOnLine fields) _ rows
  rw [← orderRows_eq_onLine h] at hline
  refine hline.imp_of_mem fun ha hb hab => ?_
  rwa [compareRows_eq_onLine (h _ (hmem.1 ha)) (h _ (hmem.1 hb))]

theorem filter_orderRows (h : ∀ row ∈ rows, HasPlaces fields row) {row : Value}
    (hrow : row ∈ rows) :
    (orderRows fields rows).filter (Tied fields row) = rows.filter (Tied fields row) := by
  have htied : ∀ a ∈ rows, decide (Tied fields row a)
      = (compareRowsOnLine fields row a == .eq) := by
    intro a ha
    rw [← compareRows_eq_onLine (h row hrow) (h a ha), Bool.eq_iff_iff, decide_eq_true_iff,
      beq_iff_eq, compareRows_eq_eq_iff]
  have hmem := fun {a} => (orderRows_perm fields rows).mem_iff (a := a)
  rw [List.filter_congr fun a ha => htied a (hmem.1 ha), List.filter_congr htied,
    orderRows_eq_onLine h]
  exact tiesWith_sortStable row rows

theorem orderRows_orderRows (h : ∀ row ∈ rows, HasPlaces fields row) :
    orderRows fields (orderRows fields rows) = orderRows fields rows := by
  have hplaces : ∀ row ∈ orderRows fields rows, HasPlaces fields row :=
    fun row hrow => h row ((orderRows_perm fields rows).mem_iff.1 hrow)
  refine sortStable_eq_self ((pairwise_orderRows h).imp_of_mem fun ha hb hab => ?_)
  rw [compareRows_eq_onLine (hplaces _ ha) (hplaces _ hb)] at hab
  rw [compareRows_eq_onLine (hplaces _ hb) (hplaces _ ha)]
  simpa using OrientedCmp.not_lt_of_isLE hab

/-- Rows without a value at a field come last if the order by it is ascending, and first if it is
descending. -/
theorem precedes_of_missing (ha : a.find? (.ofText f.field) = none)
    (hb : b.field f.field ≠ .null) :
    match f.direction with
    | .asc => f.Precedes b a
    | .desc => f.Precedes a b := by
  have hnull : a.field f.field = .null := by
    unfold Value.field Value.get
    rw [ha]
    rfl
  have hlt : (b.field f.field).compare .null = .lt := by
    cases hv : b.field f.field with
    | null => exact absurd hv hb
    | _ => rfl
  unfold OrderField.Precedes
  cases f.direction with
  | asc => simpa only [hnull] using hlt
  | desc => simp only [hnull, compare_swap (b.field f.field) .null, hlt, Ordering.swap_lt]

/-- Ordering rows that hold no `nan` at the fields puts them in order and keeps the order of rows
that tie, so that ordering them again changes nothing.  Rows without a value at a field come last
by it, or first if it is descending.  What is no array is not changed. -/
theorem orderBy_sorts_stably [Draws] (engine : Engine) (fields : List OrderField) :
    (∀ rows : List Value, (∀ row ∈ rows, HasPlaces fields row) →
      ∃ sorted, (Stage.orderBy fields).run engine (.array rows) = .ok (.array sorted)
        ∧ OrderedFrom fields rows sorted
        ∧ (Stage.orderBy fields).run engine (.array sorted) = .ok (.array sorted))
      ∧ (∀ f ∈ fields, ∀ a b : Value, a.find? (.ofText f.field) = none →
          b.field f.field ≠ .null →
            match f.direction with
            | .asc => f.Precedes b a
            | .desc => f.Precedes a b)
      ∧ ∀ v : Value, v.asArray? = none → (Stage.orderBy fields).run engine v = .ok v := by
  refine ⟨fun rows h => ⟨orderRows fields rows, rfl, ?_, ?_⟩,
    fun f _ a b => precedes_of_missing, fun v hv => ?_⟩
  · exact {
      perm := orderRows_perm fields rows
      inOrder := (pairwise_orderRows h).imp inOrder_of_isLE
      stable := fun row hrow => filter_orderRows h hrow }
  · change Except.ok (Value.array (orderRows fields (orderRows fields rows))) = _
    rw [orderRows_orderRows h]
  · cases v with
    | array items => cases hv
    | _ => rfl

/-- Two rows with the same number and one without any, in falling order of numbers. -/
theorem orderBy_sorts_stably_missing :
    (∀ row ∈ [Value.object [("n", .number .zero)], .object [("k", .null)],
        .object [("k", .null), ("n", .number .zero)]], HasPlaces [⟨"n", .desc⟩] row)
      ∧ ∃ sorted,
        (Stage.orderBy [⟨"n", .desc⟩]).run .standard (.array [.object [("n", .number .zero)],
          .object [("k", .null)], .object [("k", .null), ("n", .number .zero)]])
            = .ok (.array sorted)
        ∧ OrderedFrom [⟨"n", .desc⟩] [.object [("n", .number .zero)], .object [("k", .null)],
            .object [("k", .null), ("n", .number .zero)]] sorted
        ∧ (Stage.orderBy [⟨"n", .desc⟩]).run .standard (.array sorted)
            = .ok (.array sorted) := by
  have h : ∀ row ∈ [Value.object [("n", .number .zero)], .object [("k", .null)],
      .object [("k", .null), ("n", .number .zero)]], HasPlaces [⟨"n", .desc⟩] row := by
    have hfirst : (Value.object [("n", .number .zero)]).field "n" = .number .zero := rfl
    have hsecond : (Value.object [("k", .null)]).field "n" = .null := rfl
    have hthird : (Value.object [("k", .null), ("n", .number .zero)]).field "n"
        = .number .zero := rfl
    have hzero : Value.number .zero ≠ nan := by simp [Number.zero]
    simp only [HasPlaces, List.forall_mem_cons, hfirst, hsecond, hthird]
    simp [hzero]
  exact ⟨h, (orderBy_sorts_stably .standard [⟨"n", .desc⟩]).1 _ h⟩

end PipeQuery.Query
