import PipeQuery.Format.Options
import PipeQuery.Operator.Basic
import PipeQuery.Value.Basic

/-!
# Stages of a query

A query is a list of stages.  Each takes a value and hands on another.
-/

namespace PipeQuery.Query

/-- The direction of sorting. -/
inductive Direction where
  | asc
  | desc
deriving DecidableEq

/-- A field to sort by. -/
structure OrderField where
  /-- The path of the field. -/
  field : String
  /-- Whether the least comes first or the greatest. -/
  direction : Direction
deriving DecidableEq

/-- An argument of a call. -/
inductive Argument where
  /-- What a row holds at a path. -/
  | field (path : String)
  /-- A text. -/
  | string (text : String)
  /-- A number. -/
  | number (n : Number)
deriving DecidableEq

/-- A call of an operator. -/
structure Call where
  /-- The operator. -/
  operator : Operator
  /-- Its arguments. -/
  args : List Argument
deriving DecidableEq

/-- What is computed for a row. -/
inductive Source where
  /-- What the row holds at a path. -/
  | field (path : String)
  /-- The result of a call. -/
  | call (call : Call)
deriving DecidableEq

/-- Something computed for a row, and the path it is written to. -/
structure Item where
  /-- What is computed. -/
  source : Source
  /-- The path given for it, if any. -/
  label : Option String
deriving DecidableEq

/-- The path an item is written to: its label, else its field or the name of its operator. -/
def Item.target (item : Item) : String :=
  item.label.getD <| match item.source with
    | .field path => path
    | .call call => call.operator.name

/-- A call on a group of rows, and the key of its result. -/
structure Metric where
  /-- The call. -/
  call : Call
  /-- The key given for it, if any. -/
  label : Option String
deriving DecidableEq

/-- The key of a metric: its label, else the name of its operator. -/
def Metric.target (metric : Metric) : String := metric.label.getD metric.call.operator.name

/-- A stage. -/
inductive Stage where
  /-- A remark; the value passes through. -/
  | comment (text : String)
  /-- The word `hello`. -/
  | hello
  /-- A literal. -/
  | ping (literal : Value)
  /-- A literal. -/
  | echo (literal : Value)
  /-- What the value holds at a path. -/
  | scope (path : String)
  /-- The result of an expression. -/
  | expression (text : String)
  /-- The items, or what they hold at a path, without repetitions. -/
  | distinct (field : Option String)
  /-- A row for each item of the array that a row holds at a path. -/
  | expand (field : String) (label : Option String)
  /-- The number of items or characters. -/
  | count
  /-- The first items or characters. -/
  | limit (n : Nat)
  /-- An operator on the whole value. -/
  | command (operator : Operator)
  /-- The rows in order. -/
  | orderBy (fields : List OrderField)
  /-- The rows with more fields. -/
  | extend (items : List Item)
  /-- New rows of the items alone. -/
  | project (items : List Item)
  /-- The rows without some fields. -/
  | projectAway (fields : List String)
  /-- An object for each group of rows. -/
  | summarize (by' : List String) (metrics : List Metric)
  /-- The value that a JSON text spells. -/
  | parseJson
  /-- The records of a delimited text. -/
  | parseCsv (options : CsvOptions)
  /-- The elements of a markup text. -/
  | parseXml (options : XmlOptions)
  /-- The value that a YAML text spells. -/
  | parseYaml

/-- The name of a stage in queries and messages. -/
def Stage.name : Stage → String
  | .comment _ => "comment"
  | .hello => "hello"
  | .ping _ => "ping"
  | .echo _ => "echo"
  | .scope _ => "scope"
  | .expression _ => "jsonata"
  | .distinct _ => "distinct"
  | .expand _ _ => "mv-expand"
  | .count => "count"
  | .limit _ => "limit"
  | .command op => op.name
  | .orderBy _ => "order by"
  | .extend _ => "extend"
  | .project _ => "project"
  | .projectAway _ => "project-away"
  | .summarize _ _ => "summarize"
  | .parseJson => "parse-json"
  | .parseCsv _ => "parse-csv"
  | .parseXml _ => "parse-xml"
  | .parseYaml => "parse-yaml"

end PipeQuery.Query
