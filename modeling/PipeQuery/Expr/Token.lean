import PipeQuery.Number.Text
import PipeQuery.Text.Quoted

/-!
# Tokens of an expression

`Token.debugText` is how messages name a token: by its kind, and by what it holds
where it holds something.
-/

namespace PipeQuery.Expr

/-- A token. -/
inductive Token where
  /-- A number: digits with at most one point and an exponent. -/
  | number (n : Number)
  /-- A text in quotes. -/
  | string (text : String)
  /-- A name, plain or in backticks. -/
  | name (name : String)
  /-- A name after a dollar sign: empty for the context, a dollar sign for the root. -/
  | variable (name : String)
  | dot
  | comma
  | colon
  | question
  | openParen
  | closeParen
  | openBracket
  | closeBracket
  | openBrace
  | closeBrace
  | plus
  | minus
  | star
  | slash
  | percent
  | ampersand
  | equal
  | notEqual
  | less
  | lessEqual
  | greater
  | greaterEqual
deriving DecidableEq

/-- The token as messages name it. -/
def Token.debugText : Token → String
  | .number n => "Number(" ++ String.ofList (n.charsIn .exact) ++ ")"
  | .string text => "String(" ++ quoted text ++ ")"
  | .name x => "Name(" ++ quoted x ++ ")"
  | .variable x => "Variable(" ++ quoted x ++ ")"
  | .dot => "Dot"
  | .comma => "Comma"
  | .colon => "Colon"
  | .question => "Question"
  | .openParen => "LParen"
  | .closeParen => "RParen"
  | .openBracket => "LBracket"
  | .closeBracket => "RBracket"
  | .openBrace => "LBrace"
  | .closeBrace => "RBrace"
  | .plus => "Plus"
  | .minus => "Minus"
  | .star => "Star"
  | .slash => "Slash"
  | .percent => "Percent"
  | .ampersand => "Ampersand"
  | .equal => "Eq"
  | .notEqual => "NotEq"
  | .less => "Lt"
  | .lessEqual => "LtEq"
  | .greater => "Gt"
  | .greaterEqual => "GtEq"

/-- The first token of what is ahead, or the end, as messages name it. -/
def debugText : Option Token → String
  | some t => t.debugText
  | none => "Eof"

end PipeQuery.Expr
