import PipeQuery.Number.Text
import PipeQuery.Value.Basic

/-!
# Paths into values

A path is a list of segments, each the name of a field or the index of an item.
In an object an index is the key that its digits spell.

In text, segments are separated by points or put in brackets, where they may be
quoted: `items[0].price`, `meta["content-type"]`.  A segment is an index if it
reads as one (`readIndex?`), in brackets also when it is quoted.  Empty segments
between points are no segments; an empty bracket is the field with the empty name.

Reading (`find?`) finds what stands at a path or nothing; `get` reads `null` where there
is nothing, and never fails.  Writing (`set`) makes objects on the way where
there is nothing or a scalar, and may append one item to an array, but leaves the
value alone where an array has no place for the segment and where there is no
container to begin with.  `remove?` gives what was removed and what is left.
-/

namespace PipeQuery

/-- One step into a value. -/
inductive Segment where
  /-- A field by its name. -/
  | field (name : String)
  /-- An item by its index. -/
  | index (i : Nat)
deriving DecidableEq

/-- Steps into a value. -/
abbrev Path := List Segment

/-- The first number that is too large for an index. -/
def indexLimit : Nat := 2 ^ 64

/-- Digits after an optional plus sign, as a number below `indexLimit`. -/
def readIndex? (cs : List Char) : Option Nat :=
  let digits := match cs with
    | '+' :: rest => rest
    | _ => cs
  if digits.isEmpty || !digits.all Char.isDigit then none
  else
    let i := Nat.ofDigitChars 10 digits 0
    if i < indexLimit then some i else none

namespace Segment

/-- The segment that a piece of text spells. -/
def ofChars (cs : List Char) : Segment :=
  match readIndex? cs with
  | some i => .index i
  | none => .field (String.ofList cs)

/-- The key that a segment is in an object. -/
def key : Segment → String
  | .field name => name
  | .index i => String.ofList (decimalChars i)

end Segment

namespace Path

/-- The segment between points, if there is text for one. -/
def plainSegment (cs : List Char) : Path := if cs.isEmpty then [] else [.ofChars cs]

mutual

/-- Segments from text outside brackets, `current` being the text since the last point. -/
def parsePlain (current : List Char) : List Char → Path
  | [] => plainSegment current
  | c :: rest =>
    if c = '.' then plainSegment current ++ parsePlain [] rest
    else if c = '[' then plainSegment current ++ parseBracket [] none rest
    else parsePlain (current ++ [c]) rest

/-- Segments from text inside a bracket, `inner` being the text since it opened and `quote`
the quote that is open.  A quote opens only before any text. -/
def parseBracket (inner : List Char) (quote : Option Char) : List Char → Path
  | [] => [.ofChars inner]
  | c :: rest =>
    match quote with
    | some q =>
      if c = q then parseBracket inner none rest else parseBracket (inner ++ [c]) quote rest
    | none =>
      if c = ']' then .ofChars inner :: parsePlain [] rest
      else if (c = '"' || c = '\'') && inner.isEmpty then parseBracket inner (some c) rest
      else parseBracket (inner ++ [c]) none rest

end

/-- The path that a text spells. -/
def ofText (s : String) : Path := parsePlain [] s.toList

end Path

namespace Value

/-- What one step leads to. -/
def child? (v : Value) (segment : Segment) : Option Value :=
  match v, segment with
  | .object entries, segment => Entries.get? segment.key entries
  | .array items, .index i => items[i]?
  | _, _ => none

/-- What a path leads to; the empty path leads to the value itself. -/
def find? : Path → Value → Option Value
  | [], v => some v
  | segment :: rest, v => (v.child? segment).bind (find? rest)

/-- What a path leads to, or `null`. -/
def get (path : Path) (v : Value) : Value := (v.find? path).getD .null

/-- A container as it is, and an empty object for anything else. -/
def orObject (v : Value) : Value := if v.isContainer then v else .object []

/-- Writes `new` at the end of a path. -/
def set : Value → Path → Value → Value
  | _, [], new => new
  | .object entries, segment :: rest, new =>
    let inner :=
      if rest.isEmpty then new
      else set ((Entries.get? segment.key entries).getD .null).orObject rest new
    .object (Entries.insert segment.key inner entries)
  | .array items, .index i :: rest, new =>
    if i ≤ items.length then
      let inner := if rest.isEmpty then new else set (items[i]?.getD .null).orObject rest new
      .array (items.take i ++ inner :: items.drop (i + 1))
    else .array items
  | v, _ :: _, _ => v

/-- Removes what a path leads to: what was removed, and the value without it. -/
def remove? : Path → Value → Option (Value × Value)
  | [], _ => none
  | segment :: rest, .object entries =>
    (Entries.get? segment.key entries).bind fun inner =>
      if rest.isEmpty then some (inner, .object (Entries.erase segment.key entries))
      else (remove? rest inner).map fun (removed, left) =>
        (removed, .object (Entries.insert segment.key left entries))
  | .index i :: rest, .array items =>
    items[i]?.bind fun inner =>
      if rest.isEmpty then some (inner, .array (items.eraseIdx i))
      else (remove? rest inner).map fun (removed, left) => (removed, .array (items.set i left))
  | _ :: _, _ => none

/-- The value without what a path leads to. -/
def remove (path : Path) (v : Value) : Value :=
  match v.remove? path with
  | some (_, left) => left
  | none => v

/-! ## Paths as text -/

/-- What a path in text leads to, or `null`. -/
def field (v : Value) (path : String) : Value := v.get (.ofText path)

/-- Writes `new` at the end of a path in text. -/
def setField (v : Value) (path : String) (new : Value) : Value := v.set (.ofText path) new

/-- The value without what a path in text leads to. -/
def removeField (v : Value) (path : String) : Value := v.remove (.ofText path)

end Value

end PipeQuery
