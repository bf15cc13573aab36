import PipeQuery.Operator.Apply
import PipeQuery.Query.Stage
import PipeQuery.Value.Index
import PipeQuery.Value.Path

/-!
# Groups of rows

Rows are put into groups by what they hold at fields: by the value at one field,
by the texts at several.  Groups come in the order of their first rows, and rows
keep their order.  Each group gives an object with the values of its first row
under the fields and then the metrics; without fields all rows are one group.

`compositeKey` writes the texts of several fields as one, each after its length,
so that different texts have different keys.
-/

namespace PipeQuery.Query

/-- A text after the number of its characters. -/
def keyPart (text : List Char) : List Char := decimalChars text.length ++ ':' :: text

/-- Several texts as one. -/
def compositeKey (parts : List String) : String :=
  String.ofList (parts.flatMap fun part => keyPart part.toList)

/-- The rows in groups that the index numbers, each after the value at the field. -/
structure Grouping where
  /-- The values at the field. -/
  index : Value.Index
  /-- The value of each group with its rows. -/
  groups : List (Value × List Value)

/-- No rows. -/
def Grouping.empty : Grouping := ⟨.empty, []⟩

/-- One row more. -/
def Grouping.add (field : String) (g : Grouping) (row : Value) : Grouping :=
  let key := row.field field
  let (slot, created, index) := g.index.insert key
  if created then ⟨index, g.groups ++ [(key, [row])]⟩
  else ⟨index, g.groups.modify slot fun (key, rows) => (key, rows ++ [row])⟩

/-- The rows in groups by the value at a field. -/
def groupByValue (field : String) (rows : List Value) : List (Value × List Value) :=
  (rows.foldl (Grouping.add field) .empty).groups

/-- The texts of a row at fields, as one. -/
def rowKey (fields : List String) (row : Value) : String :=
  compositeKey (fields.map fun field => (row.field field).text)

/-- One row more, in the group with its key. -/
def addToGroup (fields : List String) (groups : Entries (List Value)) (row : Value) :
    Entries (List Value) :=
  let key := rowKey fields row
  groups.insert key ((groups.get? key).getD [] ++ [row])

/-- The rows in groups by the texts at fields. -/
def groupByTexts (fields : List String) (rows : List Value) : List (List Value) :=
  (rows.foldl (addToGroup fields) []).map Prod.snd

/-- What a metric works on: what the rows hold at its first field, or the rows. -/
def Metric.column (metric : Metric) (rows : List Value) : Value :=
  let field? := metric.call.args.findSome? fun
    | .field path => some path
    | _ => none
  match field? with
  | some path => .array (rows.map (·.field path))
  | none => .array rows

variable [Draws]

/-- The value of a metric on a group. -/
def Metric.value (metric : Metric) (rows : List Value) : Value :=
  metric.call.operator.apply [metric.column rows] (some (.array rows))

/-- Entries with the metrics of a group written after them. -/
def withMetrics (entries : Entries Value) (metrics : List Metric) (rows : List Value) :
    Entries Value :=
  metrics.foldl (fun entries metric => entries.insert metric.target (metric.value rows)) entries

/-- What the first row of a group holds at fields. -/
def groupHead (fields : List String) (rows : List Value) : Entries Value :=
  fields.foldl
    (fun entries field =>
      entries.insert field ((rows.head?.map fun row => row.field field).getD .null)) []

/-- The groups of rows by fields with their metrics. -/
def summarizeRows (fields : List String) (metrics : List Metric) (rows : List Value) : Value :=
  match fields with
  | [] => .object (withMetrics [] metrics rows)
  | [field] =>
    .array ((groupByValue field rows).map fun (key, group) =>
      .object (withMetrics [(field, key)] metrics group))
  | fields =>
    .array ((groupByTexts fields rows).map fun group =>
      .object (withMetrics (groupHead fields group) metrics group))

end PipeQuery.Query
