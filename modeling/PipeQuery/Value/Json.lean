import PipeQuery.Number.Text
import PipeQuery.Text.Property
import PipeQuery.Value.Basic

/-!
# Values as JSON text

`Value.render` writes a value as JSON.  Keys come in their order, numbers as in
results (`Number.chars`) and those that are not finite as `null`.  The two forms
differ in layout only: `Form.compact` has no space outside strings, and
`Form.pretty` puts each item of a container on a line of its own, indented by two
spaces for each level, and a space after the colon.

`Value.text` is the text of a value where text is wanted: strings as they are,
nothing for `null`, and compact JSON for containers.
-/

namespace PipeQuery

/-- The layout of JSON text. -/
inductive Form where
  /-- No space between tokens. -/
  | compact
  /-- One item a line, indented by level. -/
  | pretty
deriving DecidableEq

namespace Form

/-- What stands before an item or a closing bracket at this depth. -/
def newline (form : Form) (depth : Nat) : List Char :=
  match form with
  | .compact => []
  | .pretty => '\n' :: List.replicate (2 * depth) ' '

/-- What stands between a key and its value. -/
def colon : Form → List Char
  | .compact => [':']
  | .pretty => [':', ' ']

end Form

/-- The four digits of a code point below `16 ^ 4`, in hexadecimal. -/
def fourHexDigits (n : Nat) : List Char :=
  let digits := Nat.toDigits 16 n
  List.replicate (4 - digits.length) '0' ++ digits

/-- A character as it stands in a JSON string: quotes, backslashes and controls are escaped. -/
def jsonChar (c : Char) : List Char :=
  match c with
  | '"' => ['\\', '"']
  | '\\' => ['\\', '\\']
  | '\n' => ['\\', 'n']
  | '\r' => ['\\', 'r']
  | '\t' => ['\\', 't']
  | _ => if isControl c then '\\' :: 'u' :: fourHexDigits c.toNat else [c]

/-- A text as a JSON string. -/
def jsonString (s : String) : List Char := '"' :: s.toList.flatMap jsonChar ++ ['"']

/-- A number in JSON text. -/
def jsonNumber (n : Number) : List Char :=
  if n.isFinite then n.chars else ['n', 'u', 'l', 'l']

namespace Value

mutual

/-- A value as JSON text, its containers being `depth` levels deep. -/
def render (form : Form) (depth : Nat) : Value → List Char
  | .null => ['n', 'u', 'l', 'l']
  | .boolean true => ['t', 'r', 'u', 'e']
  | .boolean false => ['f', 'a', 'l', 's', 'e']
  | .number n => jsonNumber n
  | .string s => jsonString s
  | .array [] => ['[', ']']
  | .array (x :: xs) =>
    '[' :: form.newline (depth + 1) ++ render form (depth + 1) x
      ++ renderItems form (depth + 1) xs ++ form.newline depth ++ [']']
  | .object [] => ['\x7b', '\x7d']
  | .object ((key, x) :: rest) =>
    '\x7b' :: form.newline (depth + 1) ++ jsonString key ++ form.colon ++ render form (depth + 1) x
      ++ renderEntries form (depth + 1) rest ++ form.newline depth ++ ['\x7d']

/-- The items after the first, each behind a comma. -/
def renderItems (form : Form) (depth : Nat) : List Value → List Char
  | [] => []
  | x :: xs => ',' :: form.newline depth ++ render form depth x ++ renderItems form depth xs

/-- The entries after the first, each behind a comma. -/
def renderEntries (form : Form) (depth : Nat) : List (String × Value) → List Char
  | [] => []
  | (key, x) :: rest =>
    ',' :: form.newline depth ++ jsonString key ++ form.colon ++ render form depth x
      ++ renderEntries form depth rest

end

/-- A value as JSON text. -/
def toJson (form : Form) (v : Value) : String := String.ofList (v.render form 0)

/-- A value as text: nothing for `null`, strings as they are, containers as compact JSON. -/
def text : Value → String
  | .null => ""
  | .boolean b => if b then "true" else "false"
  | .number n => n.text
  | .string s => s
  | v => v.toJson .compact

/-- A value as it is shown alone: strings as they are, all else as compact JSON. -/
def display : Value → String
  | .string s => s
  | v => v.toJson .compact

end Value

end PipeQuery
