import PipeQuery.Expr.Eval
import PipeQuery.Expr.Parser

/-!
# Evaluating the text of an expression
-/

namespace PipeQuery.Expr

/-- What the expression with this text leads to from an input, which is both its context and
its root. -/
def evaluate (text : String) (input : Value) : Except Error Outcome := do
  evalTree (← parse text) input

end PipeQuery.Expr
