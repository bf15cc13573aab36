import Mathlib.Algebra.GroupWithZero.Nat
import Mathlib.Data.List.Forall2
import PipeQuery.Proofs.Pipeline.PassThrough
import PipeQuery.Proofs.Value.QuotedKey
import PipeQuery.Proofs.Value.Writing

/-!
# Rows expanded by their arrays

Expanding gives a row for each item of the arrays that rows hold at a field
(`expansions`), in the order of the rows and of the items.  No item is lost, as a path
that leads to an array can be written.

Without a label the item takes the place of the array, and whatever is beside the field
stays (`itemFor_none`).  With a label an object loses the field and holds the item at
the label, and its other entries keep their order (`Relabels`).
`expand_writes_each_item` says this of whole arrays of rows.
-/

namespace PipeQuery

namespace Query

variable {field label : String} {row : Value} {rows : List Value}

/-! ## Items with their rows -/

/-- The items of the array that a row holds at a field; none if it holds no array there. -/
def itemsAt (field : String) (row : Value) : List Value := (row.field field).asArray?.getD []

/-- Each row with each item of the array that it holds at a field, in order. -/
def expansions (field : String) (rows : List Value) : List (Value × Value) :=
  rows.flatMap fun row => (itemsAt field row).map fun item => (row, item)

/-- The row for an item: the item stands in place of the array, or at the label. -/
def itemFor (field : String) (label : Option String) (row item : Value) : Value :=
  match label with
  | some path => (row.removeField field).setField path item
  | none => row.setField field item

theorem itemsAt_eq_nil (h : (row.field field).isArray = false) : itemsAt field row = [] := by
  have hnone : (row.field field).asArray? = none :=
    Option.isNone_iff_eq_none.1 (Option.isSome_eq_false_iff.1 h)
  rw [itemsAt, hnone]
  rfl

theorem expandRow_eq (field : String) (label : Option String) (row : Value) :
    expandRow field label row = (itemsAt field row).map (itemFor field label row) := by
  unfold expandRow itemsAt
  cases row.field field with
  | array items => cases label <;> rfl
  | _ => rfl

theorem flatMap_expandRow (field : String) (label : Option String) (rows : List Value) :
    rows.flatMap (expandRow field label)
      = (expansions field rows).map fun e => itemFor field label e.1 e.2 := by
  rw [expansions, List.map_flatMap]
  refine List.flatMap_congr fun row _ => ?_
  rw [expandRow_eq, List.map_map]
  rfl

/-- A row with an item for it holds an array at the field. -/
theorem find?_of_mem_expansions {e : Value × Value} (h : e ∈ expansions field rows) :
    ∃ items, e.1.find? (.ofText field) = some (.array items) := by
  obtain ⟨row, -, hmem⟩ := List.mem_flatMap.1 h
  obtain ⟨item, hitem, rfl⟩ := List.mem_map.1 hmem
  unfold itemsAt at hitem
  cases hfield : row.field field with
  | array items => exact ⟨items, Value.find?_of_field hfield rfl⟩
  | _ =>
    rw [hfield] at hitem
    cases hitem

theorem map_snd_expansions (field : String) (rows : List Value) :
    (expansions field rows).map Prod.snd = rows.flatMap (itemsAt field) := by
  rw [expansions, List.map_flatMap]
  refine List.flatMap_congr fun row _ => ?_
  rw [List.map_map]
  exact List.map_id _

/-- Rows without an array at the field have no items. -/
theorem expansions_filter (field : String) (rows : List Value) :
    expansions field (rows.filter fun row => (row.field field).isArray)
      = expansions field rows := by
  induction rows with
  | nil => rfl
  | cons row rows ih =>
    rw [List.filter_cons]
    split
    next => exact congrArg (_ ++ ·) ih
    next harray =>
      rw [ih, expansions, expansions, List.flatMap_cons, itemsAt_eq_nil (by simpa using harray)]
      rfl

/-! ## The row for an item -/

/-- In place of the array a row holds the item, and beside the field what it held. -/
theorem itemFor_none {items : List Value} (h : row.find? (.ofText field) = some (.array items))
    (item : Value) :
    (itemFor field none row item).find? (.ofText field) = some item
      ∧ ∀ q, Path.Diverge (.ofText field) q →
        (itemFor field none row item).find? q = row.find? q := by
  -- a path that leads to the array is open for the item
  have hopen : ¬ Value.Blocked row (.ofText field) := Value.not_blocked_of_find? h
  constructor
  · exact Value.find?_set hopen item
  · intro q hq
    exact (Value.set_beside hq row item).1

/-- The second entries are the first ones without the field and with an item at the label. -/
structure Relabels (field label : String) (item : Value) (entries left : Entries Value) : Prop where
  /-- No key comes twice. -/
  nodup : left.keys.Nodup
  /-- The field is gone. -/
  lacks : field ∉ left.keys
  /-- The label holds the item. -/
  holds : left.get? label = some item
  /-- The other entries are there as they were, in their order. -/
  keeps : left.filter (fun e => e.1 ≠ label)
    = entries.filter (fun e => e.1 ≠ field ∧ e.1 ≠ label)

/-- The row, if it is an object without a key that comes twice, becomes an object without the field
and with its item at the label. -/
def BecomesRelabelled (field label : String) (e : Value × Value) (new : Value) : Prop :=
  ∀ entries : Entries Value, e.1 = .object entries → entries.keys.Nodup →
    ∃ left, new = .object left ∧ Relabels field label e.2 entries left

theorem relabels_insert_erase {f a : String} {entries : Entries Value}
    (hnodup : entries.keys.Nodup) (hne : f ≠ a) (item : Value) :
    Relabels f a item entries ((entries.erase f).insert a item) := by
  refine ⟨?_, ?_, ?_, ?_⟩
  · exact Entries.nodup_keys_insert (Entries.nodup_keys_erase hnodup f) a item
  · have hlacks := Entries.get?_eq_none_iff.2 (Entries.not_mem_keys_erase hnodup f)
    rw [← Entries.get?_eq_none_iff, Entries.get?_insert, if_neg hne.symm, hlacks]
  · rw [Entries.get?_insert, if_pos rfl]
  · rw [Entries.filter_insert, Entries.erase_eq_filter hnodup, List.filter_filter]
    refine List.filter_congr fun e _ => ?_
    simp [Bool.and_comm]

theorem itemFor_some {s t : Segment} (hfield : Path.ofText field = [s])
    (hlabel : Path.ofText label = [t]) (hne : s.key ≠ t.key) (e : Value × Value) :
    BecomesRelabelled s.key t.key e (itemFor field (some label) e.1 e.2) := by
  obtain ⟨row, item⟩ := e
  rintro entries rfl hnodup
  refine ⟨(entries.erase s.key).insert t.key item, ?_, relabels_insert_erase hnodup hne item⟩
  show ((Value.object entries).removeField field).setField label item = _
  rw [(leadsToKey_of_segment hfield).removeField, (leadsToKey_of_segment hlabel).setField]

/-! ## Arrays of rows -/

/-- The new rows are one for each item of the arrays that rows hold at the field, in their order;
rows without an array there count for nothing.

Without a label the items are at the field of the new rows, each of which is beside the field what
its row was.  With a label a row that is an object becomes an object without the field, with the
item at the label and with its other entries in their order, if field and label are two keys. -/
theorem expand_writes_each_item [Draws] (engine : Engine) (field : String) (rows : List Value) :
    (∃ new, (Stage.expand field none).run engine (.array rows) = .ok (.array new)
        ∧ new.length = (rows.map fun row => (itemsAt field row).length).sum
        ∧ new.map (·.find? (.ofText field)) = (rows.flatMap (itemsAt field)).map some
        ∧ List.Forall₂
          (fun e row => ∀ q, Path.Diverge (.ofText field) q → row.find? q = e.1.find? q)
          (expansions field rows) new)
      ∧ (∀ (label : String) (s t : Segment), Path.ofText field = [s] → Path.ofText label = [t] →
        s.key ≠ t.key →
        ∃ new, (Stage.expand field (some label)).run engine (.array rows) = .ok (.array new)
          ∧ List.Forall₂ (BecomesRelabelled s.key t.key) (expansions field rows) new)
      ∧ ∀ label : Option String,
        (Stage.expand field label).run engine
            (.array (rows.filter fun row => (row.field field).isArray))
          = (Stage.expand field label).run engine (.array rows) := by
  have hrun : ∀ (label : Option String) (rows : List Value),
      (Stage.expand field label).run engine (.array rows)
        = .ok (.array ((expansions field rows).map fun e => itemFor field label e.1 e.2)) := by
    intro label rows
    rw [← flatMap_expandRow]
    rfl
  refine ⟨⟨_, hrun none rows, ?_, ?_, ?_⟩, ?_, ?_⟩
  · have hlength := congrArg List.length (map_snd_expansions field rows)
    rw [List.length_map, List.length_flatMap] at hlength
    rw [List.length_map, hlength]
  · rw [List.map_map, ← map_snd_expansions, List.map_map]
    refine List.map_congr_left fun e he => ?_
    obtain ⟨items, hfind⟩ := find?_of_mem_expansions he
    exact (itemFor_none hfind e.2).1
  · rw [List.forall₂_map_right_iff, List.forall₂_same]
    intro e he
    obtain ⟨items, hfind⟩ := find?_of_mem_expansions he
    exact (itemFor_none hfind e.2).2
  · intro label s t hfield hlabel hne
    refine ⟨_, hrun (some label) rows, ?_⟩
    rw [List.forall₂_map_right_iff, List.forall₂_same]
    exact fun e _ => itemFor_some hfield hlabel hne e
  · intro label
    rw [hrun, hrun, expansions_filter]

/-- Of the two tags each comes to a row of its own, in place of what was at the label; the second
row has no tags and the third one no array of them. -/
theorem expand_writes_each_item_tags :
    Path.ofText "tags" = [.field "tags"] ∧ Path.ofText "tag" = [.field "tag"]
      ∧ (Segment.field "tags").key ≠ (Segment.field "tag").key
      ∧ ∃ new, (Stage.expand "tags" (some "tag")).run .standard (.array
          [.object [("tag", .null), ("tags", .array [.string "x", .null]), ("k", .null)],
            .object [], .object [("tags", .string "y")]])
          = .ok (.array new)
        ∧ List.Forall₂ (BecomesRelabelled "tags" "tag")
          [(.object [("tag", .null), ("tags", .array [.string "x", .null]), ("k", .null)],
              .string "x"),
            (.object [("tag", .null), ("tags", .array [.string "x", .null]), ("k", .null)], .null)]
          new := by
  have hfield : Path.ofText "tags" = [.field "tags"] := by decide
  have hlabel : Path.ofText "tag" = [.field "tag"] := by decide
  have hne : (Segment.field "tags").key ≠ (Segment.field "tag").key := by decide
  exact ⟨hfield, hlabel, hne,
    (expand_writes_each_item .standard "tags" _).2.1 "tag" _ _ hfield hlabel hne⟩

end Query

end PipeQuery
