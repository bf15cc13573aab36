/-!
# Where characters stand

What a character means in YAML hangs on its line and column.  `spots?` gives every
character of a text its place, and refuses a text with a character that YAML does
not allow.

A carriage return and a line feed behind it are one end of a line.  All ends of
lines are written as line feeds but for the line and paragraph separators.
-/

namespace PipeQuery.Yaml

/-- Whether a line ends with this character. -/
def isBreak (c : Char) : Bool :=
  c = '\n' || c = '\r' || c = '\u0085' || c = '\u2028' || c = '\u2029'

/-- White space within a line. -/
def isSpace (c : Char) : Bool := c = ' ' || c = '\t'

/-- The characters that may stand in a text. -/
def isAllowed (c : Char) : Bool :=
  let n := c.toNat
  isBreak c || c = '\t' || (0x20 ≤ n && n ≤ 0x7E) || (0xA0 ≤ n && n ≤ 0xFFFD) || 0x10000 ≤ n

/-- A character and its place. -/
structure Spot where
  /-- The character. -/
  char : Char
  /-- How many characters are before it. -/
  index : Nat
  /-- How many lines are before it. -/
  line : Nat
  /-- How many characters are before it in its line. -/
  column : Nat

/-- The characters of a text that goes on at this place. -/
def spotsFrom (index line column : Nat) : List Char → List Spot
  | [] => []
  | '\r' :: '\n' :: rest => ⟨'\n', index, line, column⟩ :: spotsFrom (index + 2) (line + 1) 0 rest
  | c :: rest =>
    if isBreak c then
      let end_ := if c = '\u2028' || c = '\u2029' then c else '\n'
      ⟨end_, index, line, column⟩ :: spotsFrom (index + 1) (line + 1) 0 rest
    else ⟨c, index, line, column⟩ :: spotsFrom (index + 1) line (column + 1) rest

/-- The characters of a text with their places, if all are allowed.  A byte order mark in
front takes a column and says nothing. -/
def spots? (text : String) : Option (List Spot) :=
  if text.toList.all isAllowed then
    match text.toList with
    | '\uFEFF' :: rest => some (spotsFrom 1 0 1 rest)
    | cs => some (spotsFrom 0 0 0 cs)
  else none

/-- Whether a word ends here: at white space, at the end of a line or of the text. -/
def atWordEnd : List Spot → Bool
  | [] => true
  | s :: _ => isSpace s.char || isBreak s.char

/-- Whether the mark between documents that is made of this character stands here: three of
them at the beginning of a line, and the end of a word. -/
def isMarker (c : Char) (ahead : List Spot) : Bool :=
  ahead.head?.any (·.column = 0) && (ahead.take 3).map (·.char) = [c, c, c] &&
    atWordEnd (ahead.drop 3)

/-- Whether a mark between documents stands here. -/
def atMarker (ahead : List Spot) : Bool := isMarker '-' ahead || isMarker '.' ahead

/-- The text behind white space and a comment, and behind the end of the line that has to be
there. -/
def lineBehind? (ahead : List Spot) : Option (List Spot) :=
  let ahead := ahead.dropWhile fun s => isSpace s.char
  let ahead :=
    if ahead.head?.any (·.char = '#') then ahead.dropWhile fun s => !isBreak s.char else ahead
  match ahead with
  | [] => some []
  | s :: rest => if isBreak s.char then some rest else none

theorem length_lineBehind?_le {ahead after : List Spot} (h : lineBehind? ahead = some after) :
    after.length ≤ ahead.length := by
  have hdrop (p : Spot → Bool) (l : List Spot) : (l.dropWhile p).length ≤ l.length :=
    (List.dropWhile_sublist _).length_le
  unfold lineBehind? at h
  grind

end PipeQuery.Yaml
