import PipeQuery.Operator.Apply
import PipeQuery.Query.Stage
import PipeQuery.Sorting
import PipeQuery.Value.Path

/-!
# Work on rows

What the stages do that take an array row by row: sorting by fields, one row for
each item of an array, and fields computed for a row.
-/

namespace PipeQuery.Query

/-- The values at a field in the order of sorting by it. -/
def OrderField.compare (f : OrderField) (a b : Value) : Ordering :=
  let o := (a.field f.field).compare (b.field f.field)
  match f.direction with
  | .asc => o
  | .desc => o.swap

/-- Rows in the order of sorting: by the first field in which they differ. -/
def compareRows (fields : List OrderField) (a b : Value) : Ordering :=
  match fields with
  | [] => .eq
  | f :: rest => (f.compare a b).then (compareRows rest a b)

/-- The rows in order; rows that tie keep theirs. -/
def orderRows (fields : List OrderField) (rows : List Value) : List Value :=
  sortStable (fun a b => compareRows fields a b == .lt) rows

/-- A row for each item of the array that it holds at a field.  The item stands in place of
the array, or the array is taken out and the item written at the label. -/
def expandRow (field : String) (label : Option String) (row : Value) : List Value :=
  match row.field field with
  | .array items =>
    items.map fun item =>
      match label with
      | some path => (row.removeField field).setField path item
      | none => row.setField field item
  | _ => []

/-- The row without fields. -/
def removeFields (fields : List String) (row : Value) : Value :=
  fields.foldl (fun row field => row.removeField field) row

/-! ## Items -/

/-- The value of an argument for a row. -/
def Argument.value (row : Value) : Argument → Value
  | .field path => row.field path
  | .string text => .string text
  | .number n => .number n

variable [Draws]

/-- The value of an item for a row, which stands in the array `context`. -/
def Item.value (row : Value) (item : Item) (context : Option Value) : Value :=
  match item.source with
  | .field path => row.field path
  | .call c => c.operator.apply (c.args.map (Argument.value row)) context

/-- The row with items written into it; each sees those before it. -/
def extendRow (items : List Item) (context : Value) (row : Value) : Value :=
  items.foldl (fun row item => row.setField item.target (item.value row (some context))) row

/-- A new row of the items. -/
def projectRow (items : List Item) (context : Option Value) (row : Value) : Value :=
  items.foldl (fun out item => out.setField item.target (item.value row context)) (.object [])

/-- A new object of the items, or the value of a single item. -/
def projectObject (items : List Item) (v : Value) : Value :=
  match items with
  | [item] => item.value v none
  | items => projectRow items none v

end PipeQuery.Query
