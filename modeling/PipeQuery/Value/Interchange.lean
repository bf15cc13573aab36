import PipeQuery.Value.Json

/-!
# Values handed to other JSON tools

The JSON text of a value by the conventions of data interchange.  A small whole
number is an integer, any other finite number has a point or an exponent
(`Layout.interchange`).  Strings use the short escapes, those for backspace and
form feed among them, and escape no character from U+0020 on but quotes and
backslashes.
-/

namespace PipeQuery

/-- A number for interchange. -/
def interchangeNumber (n : Number) : List Char :=
  match n.smallInteger? with
  | some z => integerChars z
  | none => if n.isFinite then n.charsIn .interchange else ['n', 'u', 'l', 'l']

/-- A character as it stands in a string for interchange. -/
def interchangeChar (c : Char) : List Char :=
  match c with
  | '\x08' => ['\\', 'b']
  | '\x0c' => ['\\', 'f']
  | '"' => ['\\', '"']
  | '\\' => ['\\', '\\']
  | '\n' => ['\\', 'n']
  | '\r' => ['\\', 'r']
  | '\t' => ['\\', 't']
  | _ => if c.toNat < 0x20 then '\\' :: 'u' :: fourHexDigits c.toNat else [c]

/-- A string for interchange. -/
def interchangeString (s : String) : List Char :=
  '"' :: s.toList.flatMap interchangeChar ++ ['"']

namespace Value

mutual

/-- A value for interchange. -/
def interchange : Value → List Char
  | .null => ['n', 'u', 'l', 'l']
  | .boolean true => ['t', 'r', 'u', 'e']
  | .boolean false => ['f', 'a', 'l', 's', 'e']
  | .number n => interchangeNumber n
  | .string s => interchangeString s
  | .array [] => ['[', ']']
  | .array (x :: xs) => '[' :: interchange x ++ interchangeItems xs ++ [']']
  | .object [] => ['\x7b', '\x7d']
  | .object ((key, x) :: rest) =>
    '\x7b' :: interchangeString key ++ ':' :: interchange x ++ interchangeEntries rest ++ ['\x7d']

/-- The items after the first, each behind a comma. -/
def interchangeItems : List Value → List Char
  | [] => []
  | x :: xs => ',' :: interchange x ++ interchangeItems xs

/-- The entries after the first, each behind a comma. -/
def interchangeEntries : List (String × Value) → List Char
  | [] => []
  | (key, x) :: rest =>
    ',' :: interchangeString key ++ ':' :: interchange x ++ interchangeEntries rest

end

/-- A value as JSON text for interchange. -/
def toInterchange (v : Value) : String := String.ofList v.interchange

end Value

end PipeQuery
