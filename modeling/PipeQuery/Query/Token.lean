import PipeQuery.Number.Text
import PipeQuery.Query.Position

/-!
# Tokens of a query

The tokens of a text form a `Tokens` list that ends either at the end of the text
or at the first place that is no token.  Each token carries the position of its
first character.
-/

namespace PipeQuery.Query

/-- A token. -/
inductive Token where
  /-- A number: digits with at most one point, perhaps after a minus. -/
  | number (n : Number)
  /-- A field path in double quotes. -/
  | field (path : String)
  /-- A text in single quotes. -/
  | string (text : String)
  /-- A truth value. -/
  | boolean (b : Bool)
  /-- The literal without a value. -/
  | null
  /-- A name of a command, an operator or a keyword; dashes may stand inside. -/
  | identifier (name : String)
  /-- A name after two dashes. -/
  | flag (name : String)
  /-- What follows a number sign on its line, trimmed. -/
  | comment (text : String)
  | pipe
  | comma
  | equals
  | openParen
  | closeParen
deriving DecidableEq

/-- Why a text is no list of tokens. -/
inductive LexError where
  /-- No token begins with this character. -/
  | unexpectedChar (c : Char) (position : Position)
  /-- A quote that opens here is never closed. -/
  | unterminatedString (position : Position)
  /-- A backslash stands before a character that has no escape. -/
  | invalidEscape (c : Char) (position : Position)
  /-- Digits that spell no number. -/
  | invalidNumber (text : String) (position : Position)
deriving DecidableEq

/-- The error in words. -/
def LexError.message : LexError → String
  | .unexpectedChar c p => "unexpected character '" ++ c.toString ++ "' at " ++ p.describe
  | .unterminatedString p => "unterminated string starting at " ++ p.describe
  | .invalidEscape c p => "invalid escape sequence '\\" ++ c.toString ++ "' at " ++ p.describe
  | .invalidNumber text p => "invalid number '" ++ text ++ "' at " ++ p.describe

/-- The token in words, as it is named in messages. -/
def Token.describe : Token → String
  | .number n => "number " ++ String.ofList (n.charsIn .plain)
  | .field path => "field \"" ++ path ++ "\""
  | .string text => "string '" ++ text ++ "'"
  | .boolean b => if b then "'true'" else "'false'"
  | .null => "'null'"
  | .identifier name => "'" ++ name ++ "'"
  | .flag name => "option '--" ++ name ++ "'"
  | .comment _ => "a comment"
  | .pipe => "'|'"
  | .comma => "','"
  | .equals => "'='"
  | .openParen => "'('"
  | .closeParen => "')'"

/-- Tokens up to the end of the text or the first error. -/
inductive Tokens where
  /-- The text ends here. -/
  | finished (position : Position)
  /-- Here is no token. -/
  | failed (error : LexError)
  /-- A token and those after it. -/
  | token (position : Position) (token : Token) (rest : Tokens)

namespace Tokens

/-- How many tokens there are. -/
def size : Tokens → Nat
  | .token _ _ rest => rest.size + 1
  | _ => 0

/-- The tokens without their positions. -/
def toList : Tokens → List Token
  | .token _ t rest => t :: rest.toList
  | _ => []

/-- Why the tokens end before the text does, if they do. -/
def error? : Tokens → Option LexError
  | .finished _ => none
  | .failed e => some e
  | .token _ _ rest => rest.error?

end Tokens

end PipeQuery.Query
