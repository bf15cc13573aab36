import PipeQuery.CommandLine.Arguments
import PipeQuery.CommandLine.Overview
import PipeQuery.Pipeline.Run

/-!
# What the program does

`execute` runs a query as the command line asks for it.  `respond` is the whole
program: what it writes and its exit code, for arguments and the text on the
standard input.  A query takes its input from the standard input if none is given.
-/

namespace PipeQuery.CommandLine

/-- The result of a run. -/
inductive RunResult where
  /-- The query is one. -/
  | syntaxValid
  /-- The value of the query. -/
  | value (v : Value)

/-- Why a run has no result. -/
inductive RunError where
  /-- The query failed. -/
  | query (error : Query.Error)
  /-- The input is no JSON. -/
  | inputJson (error : Json.Error)
  /-- There is no input that could be JSON. -/
  | noInput

/-- The error in words. -/
def RunError.message : RunError → String
  | .query e => e.message
  | .inputJson e => "invalid JSON input: " ++ e.message
  | .noInput => "no input provided; use --input or pipe data to stdin"

/-- The value that a query starts from: the input text, the value it spells as JSON, or `null`
without input. -/
def inputValue (opts : RunOptions) : Except RunError Value :=
  match opts.input, opts.jsonInput with
  | some text, true => (Json.read text).mapError .inputJson
  | some text, false => .ok (.string text)
  | none, true => .error .noInput
  | none, false => .ok .null

variable [Draws]

/-- Checks or runs a query. -/
def execute (opts : RunOptions) : Except RunError RunResult :=
  if opts.syntaxOnly then
    if isBlankText opts.query.toList then .ok .syntaxValid
    else match Query.parse opts.query with
      | .ok _ => .ok .syntaxValid
      | .error e => .error (.query (.parse e))
  else do
    let input ← inputValue opts
    return .value (← (Query.run opts.query input).mapError .query)

/-- What the program writes, and its exit code. -/
structure Response where
  /-- The exit code. -/
  code : Nat
  /-- What is written to the standard output. -/
  output : String
  /-- What is written to the standard error. -/
  errors : String

/-- The result of a run as text. -/
def RunResult.text (pretty : Bool) : RunResult → String
  | .syntaxValid => "Syntax is valid"
  | .value v => v.toJson (if pretty then .pretty else .compact)

/-- How to call the program. -/
def usage : String :=
  "Usage: uql [-v] run [-i INPUT] [-j] [-p] [--syntax-only] QUERY\n       uql functions\n"

/-- The version of the program. -/
def version : String := "uql 0.1.0\n"

/-- The run with the standard input as its input, if it needs one and none is given. -/
def RunOptions.withInput (opts : RunOptions) (standardInput : String) : RunOptions :=
  if opts.syntaxOnly || opts.input.isSome then opts else { opts with input := some standardInput }

/-- What the program does for its arguments and the text on the standard input. -/
def respond (args : List String) (standardInput : String) : Response :=
  match Command.ofArguments args with
  | none => ⟨2, "", usage⟩
  | some .help => ⟨0, usage, ""⟩
  | some .version => ⟨0, version, ""⟩
  | some .functions => ⟨0, overview, ""⟩
  | some (.run opts) =>
    match execute (opts.withInput standardInput) with
    | .ok result => ⟨0, result.text opts.pretty ++ "\n", ""⟩
    | .error e => ⟨1, "", e.message ++ "\n"⟩

end PipeQuery.CommandLine
