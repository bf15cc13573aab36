import PipeQuery.Expr.Token
import PipeQuery.Text.Untold

/-!
# Why an expression has no value

An `Error` is a cause at a position, which counts the characters of the
expression from zero.  Causes found in reading the text come first, then those
found in evaluating the tree; `CallFault` are the causes inside a function.
-/

namespace PipeQuery.Expr

/-- What an expression may go on with where it does not. -/
inductive Expected where
  | endOfExpression
  | closeParen
  | closeBracket
  | closeBrace
  | openParen
  | colon
  | commaOrCloseBracket
  | commaOrCloseBrace
  | commaOrCloseParen
deriving DecidableEq

/-- What is expected, in words. -/
def Expected.describe : Expected → String
  | .endOfExpression => "end of expression"
  | .closeParen => "')'"
  | .closeBracket => "']'"
  | .closeBrace => "'\x7d'"
  | .openParen => "'('"
  | .colon => "':'"
  | .commaOrCloseBracket => "',' or ']'"
  | .commaOrCloseBrace => "',' or '\x7d'"
  | .commaOrCloseParen => "',' or ')'"

/-- Why a function gives nothing for its arguments; arguments are counted from one, and kinds
of values go by their names. -/
inductive CallFault where
  /-- There are more arguments than the function takes. -/
  | tooMany (most found : Nat)
  /-- A pattern where a value is expected. -/
  | pattern (argument : Nat)
  /-- Something else than a text. -/
  | notString (argument : Nat) (found : String)
  /-- Something else than a number. -/
  | notNumber (argument : Nat) (found : String)
  /-- The argument has no value. -/
  | required (argument : Nat)
  /-- Neither a text nor a pattern. -/
  | notSearchable (argument : Nat)
  /-- Something else among numbers. -/
  | amongNumbers (found : String)
  /-- Something else among texts. -/
  | amongStrings (found : String)
  /-- The text spells no number. -/
  | spellsNoNumber (text : String)
  /-- No number stands for a value of this kind. -/
  | noNumberFor (found : String)
  /-- A count below zero. -/
  | negativeLimit
  /-- Nothing to search for. -/
  | emptyPattern
deriving DecidableEq

/-- The fault in words. -/
def CallFault.message : CallFault → String
  | .tooMany most found =>
    "takes at most " ++ toString most ++ " argument(s), found " ++ toString found
  | .pattern argument => "argument " ++ toString argument ++ " cannot be a regex"
  | .notString argument found =>
    "argument " ++ toString argument ++ " must be a string, found " ++ found
  | .notNumber argument found =>
    "argument " ++ toString argument ++ " must be a number, found " ++ found
  | .required argument => "argument " ++ toString argument ++ " is required"
  | .notSearchable argument => "argument " ++ toString argument ++ " must be a string or a regex"
  | .amongNumbers found => "expects numbers, found " ++ found
  | .amongStrings found => "expects strings, found " ++ found
  | .spellsNoNumber text => "cannot convert '" ++ text ++ "' to a number"
  | .noNumberFor found => "cannot convert " ++ found ++ " to a number"
  | .negativeLimit => "limit cannot be negative"
  | .emptyPattern => "pattern cannot be empty"

/-- Why an expression has no value. -/
inductive Cause where
  /-- A quote that is never closed. -/
  | unterminatedString
  /-- A backslash before a character that has no escape. -/
  | unsupportedEscape (c : Char)
  /-- Digits that spell no number. -/
  | invalidNumber (text : String)
  /-- A pattern that is never closed. -/
  | unterminatedRegex
  /-- A pattern without characters. -/
  | emptyRegex
  /-- No token begins with this character. -/
  | unexpectedCharacter (c : Char)
  /-- Something else is expected than this token or the end. -/
  | expected (what : Expected) (found : Option Token)
  /-- No operand begins with this token or the end. -/
  | unexpected (found : Option Token)
  /-- A name after a dollar sign that is not called. -/
  | unboundVariable (name : String)
  /-- A letter behind a pattern that is no flag. -/
  | unknownFlag (c : Char)
  /-- A pattern that cannot be read. -/
  | invalidRegex
  /-- A pattern that is no argument. -/
  | strayRegex
  /-- A key with a value of another kind, or without a value. -/
  | keyNotString (found : Option String)
  /-- A minus sign before something else than a number. -/
  | cannotNegate (found : String)
  /-- Two values that have no order. -/
  | cannotCompare (left right : String)
  /-- Arithmetic with something else than numbers. -/
  | arithmetic (left right : String)
  /-- A result that is not finite. -/
  | outOfRange
  /-- No function has this name. -/
  | unknownFunction (name : String)
  /-- A function cannot work with its arguments. -/
  | call (name : String) (fault : CallFault)
  /-- What another engine says. -/
  | other (message : String)
deriving DecidableEq

/-- The cause in words. -/
def Cause.message : Cause → String
  | .unterminatedString => "unterminated string"
  | .unsupportedEscape c => "unsupported escape sequence '\\" ++ c.toString ++ "'"
  | .invalidNumber text => "invalid number '" ++ text ++ "'"
  | .unterminatedRegex => "unterminated regex"
  | .emptyRegex => "empty regex"
  | .unexpectedCharacter c => "unexpected character '" ++ c.toString ++ "'"
  | .expected what found => "expected " ++ what.describe ++ ", found " ++ debugText found
  | .unexpected found => "unexpected " ++ debugText found
  | .unboundVariable name => "unbound variable $" ++ name
  | .unknownFlag c => "unknown regex flag '" ++ c.toString ++ "'"
  | .invalidRegex => "invalid regex: " ++ untoldFault
  | .strayRegex => "a regex can only be used as a function argument"
  | .keyNotString found => "object key must be a string, found " ++ found.getD "nothing"
  | .cannotNegate found => "cannot negate " ++ found
  | .cannotCompare left right => "cannot compare " ++ left ++ " with " ++ right
  | .arithmetic left right => "arithmetic needs numbers, found " ++ left ++ " and " ++ right
  | .outOfRange => "number out of range"
  | .unknownFunction name => "unknown function $" ++ name
  | .call name fault => "$" ++ name ++ ": " ++ fault.message
  | .other message => message

/-- Why an expression has no value, and where. -/
structure Error where
  /-- How many characters precede. -/
  position : Nat
  /-- Why. -/
  cause : Cause
deriving DecidableEq

/-- The error in words. -/
def Error.message (e : Error) : String :=
  "expression error at position " ++ toString e.position ++ ": " ++ e.cause.message

end PipeQuery.Expr
