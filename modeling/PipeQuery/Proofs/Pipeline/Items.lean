import Mathlib.Data.List.Forall2
import PipeQuery.Pipeline.Run
import PipeQuery.Proofs.Value.Writing

/-!
# Items computed for rows

Projecting and extending write the values of items at their targets, into a new object or
into the row itself.

A new row is what writing at several paths gives (`projectRow_eq_setAll`).  If the targets
part from each other, each of them leads to the value of its item for the row that was
there before, whatever the other items are (`project_reads_back`).

Extending writes into the row that the next item is computed for.  The only item whose
value depends on the other rows is a call without arguments of an operator on arrays, which
takes the array of all rows instead (`Item.readsContext`).  Such calls apart, it makes no
difference whether items stand in one stage or in two (`extend_stages_fuse`).

Whatever `random` draws (`Draws`), it draws the same for all items of a run here, so nothing of
this is meant of items that call it.
-/

namespace PipeQuery.Query

variable {item : Item} {items : List Item} {row : Value} {context : Option Value}

/-! ## Projecting -/

/-- The paths that items are written to part from each other. -/
def TargetsPart (items : List Item) : Prop :=
  items.Pairwise fun a b => Path.Diverge (.ofText a.target) (.ofText b.target)

instance : DecidablePred TargetsPart := fun _ => inferInstanceAs (Decidable (List.Pairwise _ _))

/-- A field that is written to the path it is read from. -/
def Item.IsField (item : Item) : Prop := ∃ path, item = ⟨.field path, none⟩

theorem projectRow_eq_setAll [Draws] (items : List Item) (context : Option Value) (row : Value) :
    projectRow items context row
      = (Value.object []).setAll
        (items.map fun item => (.ofText item.target, item.value row context)) := by
  rw [Value.setAll, List.foldl_map]
  rfl

/-- Each target leads to the value of its item. -/
theorem find?_projectRow [Draws] (h : TargetsPart items) (context : Option Value) (row : Value)
    (hitem : item ∈ items) :
    (projectRow items context row).find? (.ofText item.target)
      = some (item.value row context) := by
  have hpart : (items.map fun item => (Path.ofText item.target, item.value row context)).Pairwise
      fun a b => Path.Diverge a.1 b.1 := List.pairwise_map.2 h
  rw [projectRow_eq_setAll]
  exact Value.find?_setAll hpart (fun _ _ => Value.not_blocked_empty) _
    (List.mem_map.2 ⟨item, hitem, rfl⟩)

/-- The new row depends on the values of the items alone. -/
theorem projectRow_congr [Draws] {row' : Value} {context' : Option Value}
    (h : ∀ item ∈ items, item.value row context = item.value row' context') :
    projectRow items context row = projectRow items context' row' := by
  rw [projectRow_eq_setAll, projectRow_eq_setAll]
  refine congrArg (Value.setAll _) (List.map_congr_left fun item hitem => ?_)
  rw [h item hitem]

theorem projectRow_projectRow [Draws] (h : TargetsPart items)
    (hfields : ∀ item ∈ items, item.IsField) (context context' : Option Value) (row : Value) :
    projectRow items context' (projectRow items context row) = projectRow items context row := by
  refine projectRow_congr fun item hitem => ?_
  have hfind := find?_projectRow h context row hitem
  obtain ⟨path, rfl⟩ := hfields item hitem
  exact Value.field_of_find? hfind

/-- Projecting makes one row of each, in which the target of an item leads to what the item is for
the row as it was before, in the array of all rows as they were: no item sees those before it.  So
fields that keep their paths may be projected twice.

The targets part from each other; one without a segment is the only one. -/
theorem project_reads_back [Draws] (engine : Engine) {items : List Item} (h : TargetsPart items)
    (rows : List Value) :
    ∃ new, (Stage.project items).run engine (.array rows) = .ok (.array new)
      ∧ List.Forall₂
        (fun row out => ∀ item ∈ items,
          out.find? (.ofText item.target) = some (item.value row (some (.array rows))))
        rows new
      ∧ ((∀ item ∈ items, item.IsField) →
        runStages engine [.project items, .project items] (.array rows)
          = runStages engine [.project items] (.array rows)) := by
  refine ⟨rows.map (projectRow items (some (.array rows))), rfl, ?_, ?_⟩
  · rw [List.forall₂_map_right_iff, List.forall₂_same]
    exact fun row _ item hitem => find?_projectRow h _ row hitem
  · intro hfields
    show Except.ok (Value.array (List.map _ (List.map _ rows))) = .ok (Value.array (List.map _ rows))
    rw [List.map_map]
    refine congrArg (Except.ok ∘ Value.array) (List.map_congr_left fun row _ => ?_)
    exact projectRow_projectRow h hfields _ _ row

/-- The targets meet in an object, one of them by a number.  There the text of each row is found,
and the call has counted the rows there were. -/
theorem project_reads_back_nested :
    TargetsPart [⟨.field "n", some "a.0"⟩, ⟨.call ⟨.count, []⟩, some "a.b"⟩, ⟨.field "k", none⟩]
      ∧ (∀ item ∈ [(⟨.field "k", none⟩ : Item), ⟨.field "a.b", none⟩], item.IsField)
      ∧ (∃ x y : Value, (Stage.project [⟨.field "n", some "a.0"⟩,
            ⟨.call ⟨.count, []⟩, some "a.b"⟩, ⟨.field "k", none⟩]).run .standard
              (.array [.object [("n", .string "x")], .object [("n", .string "y")]])
          = .ok (.array [x, y])
        ∧ x.find? (.ofText "a.0") = some (.string "x") ∧ y.find? (.ofText "a.0") = some (.string "y")
        ∧ x.find? (.ofText "a.b") = some (.ofCount 2) ∧ y.find? (.ofText "a.b") = some (.ofCount 2))
      ∧ runStages .standard [.project [⟨.field "k", none⟩, ⟨.field "a.b", none⟩],
          .project [⟨.field "k", none⟩, ⟨.field "a.b", none⟩]] (.array [.null])
        = runStages .standard [.project [⟨.field "k", none⟩, ⟨.field "a.b", none⟩]]
          (.array [.null]) := by
  have hpart : TargetsPart
      [⟨.field "n", some "a.0"⟩, ⟨.call ⟨.count, []⟩, some "a.b"⟩, ⟨.field "k", none⟩] := by
    decide
  have hfields : TargetsPart [⟨.field "k", none⟩, ⟨.field "a.b", none⟩] := by decide
  have hplain : ∀ item ∈ [(⟨.field "k", none⟩ : Item), ⟨.field "a.b", none⟩], item.IsField := by
    simp [Item.IsField]
  obtain ⟨new, hrun, hnew, -⟩ := project_reads_back .standard hpart
    [.object [("n", .string "x")], .object [("n", .string "y")]]
  obtain ⟨-, -, -, htwice⟩ := project_reads_back .standard hfields [.null]
  obtain ⟨x, behindX, hx, htail, rfl⟩ := List.forall₂_cons_left_iff.1 hnew
  obtain ⟨y, behindY, hy, hend, rfl⟩ := List.forall₂_cons_left_iff.1 htail
  obtain rfl := List.forall₂_nil_left_iff.1 hend
  refine ⟨hpart, hplain, ⟨x, y, hrun, ?_, ?_, ?_, ?_⟩, htwice hplain⟩
  · exact hx ⟨.field "n", some "a.0"⟩ (by simp)
  · exact hy ⟨.field "n", some "a.0"⟩ (by simp)
  · exact hx ⟨.call ⟨.count, []⟩, some "a.b"⟩ (by simp)
  · exact hy ⟨.call ⟨.count, []⟩, some "a.b"⟩ (by simp)

/-! ## Extending -/

/-- Whether the value of the item depends on the array that the row stands in. -/
def Item.readsContext (item : Item) : Bool :=
  match item.source with
  | .field _ => false
  | .call c => c.args.isEmpty && decide (c.operator.shape = .array)

/-- Only operators on arrays take the array they stand in, and only for want of arguments. -/
theorem input_congr {op : Operator} {args : List Value} (h : args = [] → op.shape ≠ .array)
    (context context' : Option Value) : op.input args context = op.input args context' := by
  unfold Operator.input
  cases hshape : op.shape with
  | nothing => rfl
  | string => rfl
  | array =>
    cases args with
    | nil => exact absurd hshape (h rfl)
    | cons arg args => cases arg <;> cases args <;> rfl

theorem Item.value_congr [Draws] (h : item.readsContext = false) (row : Value)
    (context context' : Option Value) : item.value row context = item.value row context' := by
  obtain ⟨source, label⟩ := item
  cases source with
  | field path => rfl
  | call c =>
    have hargs : c.args.map (Argument.value row) = [] → c.operator.shape ≠ .array := by
      intro hnil harray
      simp [readsContext, List.map_eq_nil_iff.1 hnil, harray] at h
    exact congrArg c.operator.applyTo (input_congr hargs context context')

theorem extendRow_congr [Draws] (h : ∀ item ∈ items, item.readsContext = false)
    (context context' row : Value) : extendRow items context row = extendRow items context' row := by
  induction items generalizing row with
  | nil => rfl
  | cons item items ih =>
    obtain ⟨hitem, hitems⟩ := List.forall_mem_cons.1 h
    have hvalue := item.value_congr hitem row (some context) (some context')
    show extendRow items context (row.setField item.target _) = _
    rw [hvalue]
    exact ih hitems _

theorem extendRow_append [Draws] (xs ys : List Item) (context row : Value) :
    extendRow (xs ++ ys) context row = extendRow ys context (extendRow xs context row) :=
  List.foldl_append

/-- Items of one stage may be put into two: the later ones are computed for rows that have the
earlier ones either way.  What the later ones read of the array they stand in would not be the same,
so none of them may. -/
theorem extend_stages_fuse [Draws] (engine : Engine) (xs : List Item) {ys : List Item}
    (h : ∀ item ∈ ys, item.readsContext = false) (v : Value) :
    runStages engine [.extend (xs ++ ys)] v = runStages engine [.extend xs, .extend ys] v := by
  cases v with
  | array rows =>
    show Except.ok (Value.array (List.map _ rows)) = .ok (Value.array (List.map _ (List.map _ rows)))
    rw [List.map_map]
    refine congrArg (Except.ok ∘ Value.array) (List.map_congr_left fun row _ => ?_)
    rw [extendRow_append]
    exact extendRow_congr h _ _ _
  | _ => rfl

/-- A call that reads no field but the one that the item before it has written, in one stage and in
two. -/
theorem extend_stages_fuse_call :
    (∀ item ∈ [(⟨.call ⟨.toUpper, [.field "b"]⟩, some "c"⟩ : Item)], item.readsContext = false)
      ∧ runStages .standard
          [.extend [⟨.field "a", some "b"⟩, ⟨.call ⟨.toUpper, [.field "b"]⟩, some "c"⟩]]
          (.array [.object [("a", .string "x")]])
        = .ok (.array [.object [("a", .string "x"), ("b", .string "x"), ("c", .string "X")]])
      ∧ runStages .standard
          [.extend [⟨.field "a", some "b"⟩], .extend [⟨.call ⟨.toUpper, [.field "b"]⟩, some "c"⟩]]
          (.array [.object [("a", .string "x")]])
        = .ok (.array [.object [("a", .string "x"), ("b", .string "x"), ("c", .string "X")]]) := by
  have h : ∀ item ∈ [(⟨.call ⟨.toUpper, [.field "b"]⟩, some "c"⟩ : Item)],
      item.readsContext = false := by decide
  have hrow : runStages .standard
      [.extend [⟨.field "a", some "b"⟩], .extend [⟨.call ⟨.toUpper, [.field "b"]⟩, some "c"⟩]]
      (.array [.object [("a", .string "x")]])
      = .ok (.array [.object [("a", .string "x"), ("b", .string "x"), ("c", .string "X")]]) := by
    rfl
  have hfuse := extend_stages_fuse .standard [⟨.field "a", some "b"⟩] h
    (.array [.object [("a", .string "x")]])
  exact ⟨h, hfuse.trans hrow, hrow⟩

end PipeQuery.Query
