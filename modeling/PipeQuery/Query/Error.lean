import PipeQuery.Operator.Basic
import PipeQuery.Query.Token

/-!
# Why a text is no query

`ParseError` lists the causes; `ParseError.message` puts them in words.
-/

namespace PipeQuery.Query

/-- What a query may go on with where it does not. -/
inductive Expected where
  | command
  | commandAfterPipe
  | pipeOrEnd
  | keyword (word : String)
  | literal
  | fieldPath
  | expression
  | field
  | fieldOrCall
  | label
  | functionName
  | functionArgument
  | groupField
  | wholeNumber
  | openParen
  | closeParen
  | commaOrCloseParen
  | equals
deriving DecidableEq

/-- What is expected, in words. -/
def Expected.describe : Expected → String
  | .command => "a command"
  | .commandAfterPipe => "a command after '|'"
  | .pipeOrEnd => "'|' or end of query"
  | .keyword word => "'" ++ word ++ "'"
  | .literal => "a literal"
  | .fieldPath => "a field path"
  | .expression => "an expression"
  | .field => "a field"
  | .fieldOrCall => "a field or function call"
  | .label => "an alias"
  | .functionName => "a function name"
  | .functionArgument => "a function argument"
  | .groupField => "a group-by field"
  | .wholeNumber => "a non-negative integer"
  | .openParen => "'('"
  | .closeParen => "')'"
  | .commaOrCloseParen => "',' or ')'"
  | .equals => "'='"

/-- What the value of an option has to be. -/
inductive OptionValue where
  | truthValue
  | string
  | character
deriving DecidableEq

/-- What is expected of an option, in words. -/
def OptionValue.describe : OptionValue → String
  | .truthValue => "expected true or false"
  | .string => "expected a string"
  | .character => "expected a single ASCII character"

/-- Why a text is no query. -/
inductive ParseError where
  /-- The text is no list of tokens. -/
  | lex (error : LexError)
  /-- A token, or the end of the query, where something else is expected. -/
  | unexpected (expected : Expected) (found : Option Token) (position : Position)
  /-- No stage and no operator has this name. -/
  | unknownCommand (name : String) (position : Position)
  /-- No operator has this name. -/
  | unknownFunction (name : String) (position : Position)
  /-- A call has too many or too few arguments. -/
  | arity (operator : Operator) (found : Nat) (position : Position)
  /-- The stage has no such option. -/
  | unknownOption (stage : String) (name : String) (position : Position)
  /-- The option takes other values. -/
  | invalidOption (name : String) (expected : OptionValue) (position : Position)
  /-- There are no stages. -/
  | empty
deriving DecidableEq

/-- The message on a name that is no operator's. -/
def unknownOperatorMessage (name : String) : String := "unknown operator '" ++ name ++ "'"

/-- The error in words. -/
def ParseError.message : ParseError → String
  | .lex e => e.message
  | .unexpected expected found p =>
    let found := match found with
      | some t => t.describe
      | none => "end of query"
    "expected " ++ expected.describe ++ ", found " ++ found ++ " at " ++ p.describe
  | .unknownCommand name p => "unknown command '" ++ name ++ "' at " ++ p.describe
  | .unknownFunction name p => unknownOperatorMessage name ++ " at " ++ p.describe
  | .arity op found p =>
    op.name ++ "() takes " ++ op.arity.words ++ " argument(s), found " ++ toString found
      ++ " at " ++ p.describe
  | .unknownOption stage name p =>
    "unknown option '--" ++ name ++ "' for " ++ stage ++ " at " ++ p.describe
  | .invalidOption name expected p =>
    "invalid value for option '--" ++ name ++ "' at " ++ p.describe ++ ": " ++ expected.describe
  | .empty => "failed to parse query: no stages found"

end PipeQuery.Query
