import PipeQuery.Text.Bytes

/-!
# Why a text is no JSON

An error has a cause and a place.  The place is counted in lines and in the bytes
of the line that were read.
-/

namespace PipeQuery.Json

/-- Why a text is no JSON. -/
inductive Cause where
  | endInValue
  | endInList
  | endInObject
  | endInString
  | expectedValue
  | expectedWord
  | expectedColon
  | expectedCommaOrBracket
  | expectedCommaOrBrace
  | keyNotString
  | trailingComma
  | trailingCharacters
  | invalidNumber
  | numberOutOfRange
  | invalidEscape
  | endOfHexEscape
  | loneSurrogate
  | controlCharacter
  | tooDeep
deriving DecidableEq

/-- The cause in words. -/
def Cause.describe : Cause → String
  | .endInValue => "EOF while parsing a value"
  | .endInList => "EOF while parsing a list"
  | .endInObject => "EOF while parsing an object"
  | .endInString => "EOF while parsing a string"
  | .expectedValue => "expected value"
  | .expectedWord => "expected ident"
  | .expectedColon => "expected \x60:\x60"
  | .expectedCommaOrBracket => "expected \x60,\x60 or \x60]\x60"
  | .expectedCommaOrBrace => "expected \x60,\x60 or \x60\x7d\x60"
  | .keyNotString => "key must be a string"
  | .trailingComma => "trailing comma"
  | .trailingCharacters => "trailing characters"
  | .invalidNumber => "invalid number"
  | .numberOutOfRange => "number out of range"
  | .invalidEscape => "invalid escape"
  | .endOfHexEscape => "unexpected end of hex escape"
  | .loneSurrogate => "lone leading surrogate in hex escape"
  | .controlCharacter => "control character (\\u0000-\\u001F) found while parsing a string"
  | .tooDeep => "recursion limit exceeded"

/-- A cause and how many bytes of the text are behind its place. -/
structure Fault where
  /-- Why. -/
  cause : Cause
  /-- The bytes behind the place. -/
  bytesBehind : Nat
deriving DecidableEq

/-- A cause and its place in the text. -/
structure Error where
  /-- Why. -/
  cause : Cause
  /-- The line, from one. -/
  line : Nat
  /-- The bytes of the line up to the place. -/
  column : Nat
deriving DecidableEq

/-- The error in words. -/
def Error.message (e : Error) : String :=
  e.cause.describe ++ " at line " ++ toString e.line ++ " column " ++ toString e.column

/-- Line and column behind the first `bytes` bytes, from a line and a column on. -/
def placeFrom (line column bytes : Nat) : List Char → Nat × Nat
  | [] => (line, column)
  | c :: rest =>
    if bytes < c.utf8Size then (line, column + bytes)
    else if c = '\n' then placeFrom (line + 1) 0 (bytes - 1) rest
    else placeFrom line (column + c.utf8Size) (bytes - c.utf8Size) rest

/-- The fault with its place in the text it was found in. -/
def Fault.toError (text : List Char) (fault : Fault) : Error :=
  let (line, column) := placeFrom 1 0 (byteCount text - fault.bytesBehind) text
  ⟨fault.cause, line, column⟩

end PipeQuery.Json
