import PipeQuery.Operator.Basic

/-!
# The list of operators

The operators of the registry as a table, for the reader of a terminal.
-/

namespace PipeQuery.CommandLine

/-- How the arguments of an operator are shown. -/
def arguments : Arity → String
  | .zero => "()"
  | .unary => "(x)"
  | .binary => "(a, b)"
  | .variadic => "(...)"

/-- How wide the column of names is. -/
def nameWidth : Nat := 18

/-- An operator with its arguments and what it does, in a line. -/
def overviewLine (op : Operator) : String :=
  let name := op.name ++ arguments op.arity
  "  " ++ name ++ String.ofList (List.replicate (nameWidth - name.length) ' ')
    ++ op.description ++ "\n"

/-- The table of operators. -/
def overview : String :=
  "UQL FUNCTIONS\n\n" ++ String.join (Operator.all.map overviewLine)
    ++ "\nFunctions are called inside extend, project and summarize, or used alone as a stage:\n\n"
    ++ "  summarize \"total\"=sum(\"price\") by \"team\"\n"
    ++ "  echo 'abc' | toupper\n"

end PipeQuery.CommandLine
