import PipeQuery.Proofs.Pipeline.Ordering
import PipeQuery.Proofs.Query.Composition

/-!
# Ordering field by field

Rows are ordered by several fields at once, or by one field after the other, the first
field last.  As every pass leaves rows that tie as they came, the order by the later
fields is still there where the first field ties, and both ways give the same rows in the
same order (`orderBy_field_by_field`), if no row holds `nan` at a field.
-/

namespace PipeQuery.Query

variable {f : OrderField} {fields : List OrderField} {rows : List Value}

theorem orderRows_nil (rows : List Value) : orderRows [] rows = rows :=
  sortStable_eq_self (List.pairwise_of_forall fun _ _ => rfl)

/-- The first field is the last to order by. -/
theorem orderRows_cons (h : ∀ row ∈ rows, HasPlaces (f :: fields) row) :
    orderRows (f :: fields) rows = orderRows [f] (orderRows fields rows) := by
  have hrest : ∀ row ∈ rows, HasPlaces fields row :=
    fun row hrow => (List.forall_mem_cons.1 (h row hrow)).2
  have hfirst : ∀ row ∈ orderRows fields rows, HasPlaces [f] row := by
    intro row hrow
    have hrow := (orderRows_perm fields rows).mem_iff.1 hrow
    exact List.forall_mem_singleton.2 (List.forall_mem_cons.1 (h row hrow)).1
  have hsingle : compareRowsOnLine [f] = f.compareOnLine := by
    funext a b
    exact Ordering.then_eq
  rw [orderRows_eq_onLine h, orderRows_eq_onLine hfirst, orderRows_eq_onLine hrest, hsingle,
    sortStable_sortStable]
  rfl

/-- The stages that order by one field each, the first field last. -/
def oneByOne (fields : List OrderField) : List Stage :=
  fields.reverse.map fun f => .orderBy [f]

theorem oneByOne_cons (f : OrderField) (fields : List OrderField) :
    oneByOne (f :: fields) = oneByOne fields ++ [.orderBy [f]] := by
  simp [oneByOne]

theorem runStages_oneByOne [Draws] (engine : Engine) (h : ∀ row ∈ rows, HasPlaces fields row) :
    runStages engine (oneByOne fields) (.array rows) = .ok (.array (orderRows fields rows)) := by
  induction fields with
  | nil =>
    rw [orderRows_nil]
    rfl
  | cons f fields ih =>
    have hrest : ∀ row ∈ rows, HasPlaces fields row :=
      fun row hrow => (List.forall_mem_cons.1 (h row hrow)).2
    rw [oneByOne_cons, runStages_append, ih hrest, orderRows_cons h]
    rfl

/-- Ordering by several fields gives the rows that ordering by one field after the other gives,
from the last field to the first, if no row holds `nan` at a field. -/
theorem orderBy_field_by_field [Draws] (engine : Engine) {fields : List OrderField}
    {rows : List Value} (h : ∀ row ∈ rows, HasPlaces fields row) :
    ∃ sorted, (Stage.orderBy fields).run engine (.array rows) = .ok (.array sorted)
      ∧ runStages engine (oneByOne fields) (.array rows) = .ok (.array sorted) :=
  ⟨orderRows fields rows, rfl, runStages_oneByOne engine h⟩

/-- Rows that tie at the first field, one of them without a value at the second. -/
theorem orderBy_field_by_field_missing :
    (∀ row ∈ [Value.object [("k", .string "x"), ("n", .number .zero)],
        .object [("k", .string "x")], .object [("k", .string "a")]],
        HasPlaces [⟨"k", .desc⟩, ⟨"n", .asc⟩] row)
      ∧ ∃ sorted,
        (Stage.orderBy [⟨"k", .desc⟩, ⟨"n", .asc⟩]).run .standard (.array
          [.object [("k", .string "x"), ("n", .number .zero)], .object [("k", .string "x")],
            .object [("k", .string "a")]]) = .ok (.array sorted)
        ∧ runStages .standard [.orderBy [⟨"n", .asc⟩], .orderBy [⟨"k", .desc⟩]] (.array
          [.object [("k", .string "x"), ("n", .number .zero)], .object [("k", .string "x")],
            .object [("k", .string "a")]]) = .ok (.array sorted) := by
  have h : ∀ row ∈ [Value.object [("k", .string "x"), ("n", .number .zero)],
      .object [("k", .string "x")], .object [("k", .string "a")]],
      HasPlaces [⟨"k", .desc⟩, ⟨"n", .asc⟩] row := by
    have hzero : Value.number .zero ≠ Value.nan := by simp [Number.zero]
    have hstring : ∀ s : String, Value.string s ≠ Value.nan := by simp [Value.nan]
    have hnull : Value.null ≠ Value.nan := by simp [Value.nan]
    have hfirst : HasPlaces [⟨"k", .desc⟩, ⟨"n", .asc⟩]
        (.object [("k", .string "x"), ("n", .number .zero)]) :=
      List.forall_mem_cons.2 ⟨hstring "x", List.forall_mem_singleton.2 hzero⟩
    have hsecond : HasPlaces [⟨"k", .desc⟩, ⟨"n", .asc⟩] (.object [("k", .string "x")]) :=
      List.forall_mem_cons.2 ⟨hstring "x", List.forall_mem_singleton.2 hnull⟩
    have hthird : HasPlaces [⟨"k", .desc⟩, ⟨"n", .asc⟩] (.object [("k", .string "a")]) :=
      List.forall_mem_cons.2 ⟨hstring "a", List.forall_mem_singleton.2 hnull⟩
    exact List.forall_mem_cons.2 ⟨hfirst, List.forall_mem_cons.2 ⟨hsecond,
      List.forall_mem_singleton.2 hthird⟩⟩
  exact ⟨h, orderBy_field_by_field .standard h⟩

end PipeQuery.Query
