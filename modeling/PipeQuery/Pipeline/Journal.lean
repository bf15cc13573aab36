import PipeQuery.Pipeline.Run
import PipeQuery.Text.Bytes
import PipeQuery.Text.Quoted

/-!
# The journal of a run

A run notes what it does: the query it parsed, each stage with the kind of value it
met, stages that passed a value through, groups, texts that were read and
expressions.  `journal` gives the notes of a run in order, up to the stage that
failed.  What is noted follows from the stages and the values they meet, so a run
itself keeps no notes.
-/

namespace PipeQuery.Query

/-- How important a note is. -/
inductive Importance where
  | debug
  | trace
deriving DecidableEq

/-- A note. -/
inductive Note where
  /-- The query has no text. -/
  | emptyQuery
  /-- The query has so many stages. -/
  | parsed (stages : Nat)
  /-- A stage meets a value of a kind. -/
  | stage (name kind : String)
  /-- A stage passes a value of a kind through. -/
  | passedThrough (name kind : String)
  /-- An expression is evaluated. -/
  | expression (text : String)
  /-- Rows are in groups by one field. -/
  | groupedByValue (field : String) (groups : Nat)
  /-- Rows are in groups by several fields. -/
  | groupedByTexts (fields groups : Nat)
  /-- A JSON text of so many bytes is read. -/
  | json (bytes : Nat)
  /-- A delimited text of so many bytes is read. -/
  | csv (bytes : Nat) (columns : Bool)
  /-- A markup text of so many bytes is read. -/
  | xml (bytes : Nat) (attributes : Bool)
  /-- A YAML text of so many bytes is read. -/
  | yaml (bytes : Nat)
deriving DecidableEq

namespace Note

/-- How important a note is. -/
def importance : Note → Importance
  | .passedThrough .. | .groupedByValue .. | .groupedByTexts .. => .trace
  | _ => .debug

/-- The part of the program that a note comes from. -/
def origin : Note → String
  | .emptyQuery | .parsed _ => "uql_lang"
  | .stage .. | .passedThrough .. => "uql_lang::evaluator"
  | .expression _ => "uql_lang::expression"
  | .groupedByValue .. | .groupedByTexts .. => "uql_lang::summarize"
  | .json _ => "uql_lang::adapters::json"
  | .csv .. => "uql_lang::adapters::csv"
  | .xml .. => "uql_lang::adapters::xml"
  | .yaml _ => "uql_lang::adapters::yaml"

/-- A truth value in a note. -/
def flag (b : Bool) : String := if b then "true" else "false"

/-- A note in words. -/
def text : Note → String
  | .emptyQuery => "empty query"
  | .parsed stages => "parsed query stages=" ++ toString stages
  | .stage name kind => "evaluating stage stage=" ++ quoted name ++ " shape=" ++ quoted kind
  | .passedThrough name kind =>
    "stage does not apply to value, passing through stage=" ++ quoted name
      ++ " shape=" ++ quoted kind
  | .expression e => "evaluating expression expression=" ++ quoted e
  | .groupedByValue field groups =>
    "grouped by single key key=" ++ field ++ " groups=" ++ toString groups
  | .groupedByTexts fields groups =>
    "grouped by composite key keys=" ++ toString fields ++ " groups=" ++ toString groups
  | .json bytes => "parsing JSON payload bytes=" ++ toString bytes
  | .csv bytes columns =>
    "parsing CSV payload bytes=" ++ toString bytes ++ " columns=" ++ flag columns
  | .xml bytes attributes =>
    "parsing XML payload bytes=" ++ toString bytes ++ " attributes=" ++ flag attributes
  | .yaml bytes => "parsing YAML payload bytes=" ++ toString bytes

/-- A note as a line. -/
def line (note : Note) : String :=
  let importance := match note.importance with
    | .debug => "DEBUG "
    | .trace => "TRACE "
  importance ++ note.origin ++ ": " ++ note.text

end Note

/-- Whether a stage has something to do with a value of this kind. -/
def Stage.applies (stage : Stage) (v : Value) : Bool :=
  match stage, v with
  | .count, .array _ | .count, .string _ | .limit _, .array _ | .limit _, .string _ => true
  | .count, _ | .limit _, _ => false
  | .project _, .array _ | .project _, .object _ => true
  | .project _, _ => false
  | .distinct none, v | .expand _ _, v | .orderBy _, v | .extend _, v | .projectAway _, v
  | .summarize _ _, v => v.asArray?.isSome
  | .parseJson, v | .parseCsv _, v | .parseXml _, v | .parseYaml, v => v.asString?.isSome
  | _, _ => true

/-- What a stage notes of its work on a value that it applies to. -/
def Stage.workNotes (stage : Stage) (v : Value) : List Note :=
  match stage, v with
  | .expression text, _ => [.expression text]
  | .summarize [field] _, .array rows => [.groupedByValue field (groupByValue field rows).length]
  | .summarize (first :: second :: others) _, .array rows =>
    let fields := first :: second :: others
    [.groupedByTexts fields.length (groupByTexts fields rows).length]
  | .parseJson, .string text => [.json (byteCount text.toList)]
  | .parseCsv opts, .string text => [.csv (byteCount text.toList) opts.columns]
  | .parseXml opts, .string text => [.xml (byteCount text.toList) opts.attributes]
  | .parseYaml, .string text => [.yaml (byteCount text.toList)]
  | _, _ => []

/-- What a stage notes at a value. -/
def Stage.notes (stage : Stage) (v : Value) : List Note :=
  .stage stage.name v.typeName ::
    if stage.applies v then stage.workNotes v else [.passedThrough stage.name v.typeName]

variable [Draws]

/-- What stages note one after the other, up to the one that fails. -/
def stageNotes (stages : List Stage) (v : Value) : List Note :=
  match stages with
  | [] => []
  | stage :: rest =>
    stage.notes v ++ match stage.run .standard v with
      | .ok v => stageNotes rest v
      | .error _ => []

/-- What a run of a query on an input notes. -/
def journal (text : String) (input : Value) : List Note :=
  if isBlankText text.toList then [.emptyQuery]
  else match parse text with
    | .error _ => []
    | .ok stages => .parsed stages.length :: stageNotes stages input

end PipeQuery.Query
