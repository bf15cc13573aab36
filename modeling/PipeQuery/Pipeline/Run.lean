import PipeQuery.Expr.Evaluate
import PipeQuery.Format.Csv
import PipeQuery.Format.Error
import PipeQuery.Format.Json.Reader
import PipeQuery.Format.Xml.Element
import PipeQuery.Format.Yaml.Reader
import PipeQuery.Pipeline.Row
import PipeQuery.Pipeline.Summary
import PipeQuery.Query.Parser

/-!
# Running queries

`Stage.run` is what a stage makes of a value.  A stage that has nothing to do with
a value of this kind passes it through.  Only expressions and the readers of
formats can fail.

Expressions are evaluated by an `Engine`; `Engine.standard` is the language of
`PipeQuery.Expr`.
-/

namespace PipeQuery.Query

/-- What evaluates expressions. -/
structure Engine where
  /-- What an expression leads to from an input. -/
  evaluate : String → Value → Except ContentError Expr.Outcome

/-- The engine that evaluates the expressions of `PipeQuery.Expr`. -/
def Engine.standard : Engine where
  evaluate text input := (Expr.evaluate text input).mapError .expression

/-- A stage that failed. -/
structure StageError where
  /-- The name of the stage. -/
  stage : String
  /-- Why it failed. -/
  cause : ContentError
deriving DecidableEq

/-- The error in words. -/
def StageError.message (e : StageError) : String := e.stage ++ " failed: " ++ e.cause.message

/-- Why a query gives no value. -/
inductive Error where
  /-- The text is no query. -/
  | parse (error : ParseError)
  /-- A stage failed. -/
  | evaluation (error : StageError)
deriving DecidableEq

/-- The error in words. -/
def Error.message : Error → String
  | .parse e => "parse error: " ++ e.message
  | .evaluation e => "evaluation error: " ++ e.message

/-! ## Stages -/

/-- The items of an array without repetitions, or what they hold at a field; of any other value
what it holds at the field. -/
def distinctValues (field : Option String) (v : Value) : Value :=
  match v, field with
  | .array items, none => .array (Value.distinct items)
  | .array items, some path => .array (Value.distinct (items.map (·.field path)))
  | v, some path =>
    match v.field path with
    | .array items => .array (Value.distinct items)
    | single => .array [single]
  | v, none => v

/-- The value that a text spells by some reader; any other value passes through. -/
def readText (stage : Stage) (read : String → Except ContentError Value) (v : Value) :
    Except StageError Value :=
  match v with
  | .string text => (read text).mapError fun cause => ⟨stage.name, cause⟩
  | v => .ok v

variable [Draws]

/-- What a stage makes of a value. -/
def Stage.run (engine : Engine) (stage : Stage) (v : Value) : Except StageError Value :=
  match stage with
  | .comment _ => .ok v
  | .hello => .ok (.string "hello")
  | .ping literal | .echo literal => .ok literal
  | .scope path => .ok (v.field path)
  | .expression text =>
    match engine.evaluate text v with
    | .ok outcome => .ok outcome.toValue
    | .error cause => .error ⟨stage.name, cause⟩
  | .distinct field => .ok (distinctValues field v)
  | .expand field label =>
    match v with
    | .array rows => .ok (.array (rows.flatMap (expandRow field label)))
    | v => .ok v
  | .count =>
    match v with
    | .array items => .ok (.ofCount items.length)
    | .string s => .ok (.ofCount s.length)
    | v => .ok v
  | .limit n =>
    match v with
    | .array items => .ok (.array (items.take n))
    | .string s => .ok (.string (String.ofList (s.toList.take n)))
    | v => .ok v
  | .command op => .ok (op.applyTo v)
  | .orderBy fields =>
    match v with
    | .array rows => .ok (.array (orderRows fields rows))
    | v => .ok v
  | .extend items =>
    match v with
    | .array rows => .ok (.array (rows.map (extendRow items (.array rows))))
    | v => .ok v
  | .project items =>
    match v with
    | .array rows => .ok (.array (rows.map (projectRow items (some (.array rows)))))
    | .object entries => .ok (projectObject items (.object entries))
    | v => .ok v
  | .projectAway fields =>
    match v with
    | .array rows => .ok (.array (rows.map (removeFields fields)))
    | v => .ok v
  | .summarize fields metrics =>
    match v with
    | .array rows => .ok (summarizeRows fields metrics rows)
    | v => .ok v
  | .parseJson => readText stage (fun text => (Json.read text).mapError .json) v
  | .parseCsv opts => readText stage (fun text => (Csv.read opts text).mapError .csv) v
  | .parseXml opts => readText stage (fun text => (Xml.read opts text).mapError .xml) v
  | .parseYaml =>
    readText stage
      (fun text => match Yaml.read text with
        | some v => .ok v
        | none => .error .yaml) v

/-- What stages make of a value, one after the other. -/
def runStages (engine : Engine) (stages : List Stage) (v : Value) : Except StageError Value :=
  stages.foldlM (fun v stage => stage.run engine v) v

/-! ## Queries -/

/-- The answer to a query without any text. -/
def emptyQueryAnswer : String := "hello there! provide a valid query"

/-- The value of a query on an input. -/
def runWith (engine : Engine) (text : String) (input : Value) : Except Error Value :=
  if isBlankText text.toList then .ok (.string emptyQueryAnswer)
  else do
    let stages ← (parse text).mapError .parse
    (runStages engine stages input).mapError .evaluation

/-- The value of a query on an input, expressions being those of `PipeQuery.Expr`. -/
def run (text : String) (input : Value) : Except Error Value := runWith .standard text input

end PipeQuery.Query
