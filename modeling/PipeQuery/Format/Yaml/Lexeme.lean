import PipeQuery.Format.Yaml.Block
import PipeQuery.Format.Yaml.Flow
import PipeQuery.Format.Yaml.Tag

/-!
# What is written

A text of YAML is made of *lexemes*: marks, names, tags, directives and scalars.
`lexemeAt` reads one that begins with a character that is neither a space nor the end of
a line; `length_lexemeAt_le` says that it takes that character at least.

Between brackets other characters are marks, so that reading has to know whether it is
*in flow*, and where scalars may go on it has to know the *margin*: the column from which
on a line belongs to the collection around.
-/

namespace PipeQuery.Yaml

/-- What brackets stand around. -/
inductive Bracket where
  /-- Items in square brackets. -/
  | square
  /-- Keys and values in curly brackets. -/
  | curly

/-- What is written at one place. -/
inductive Lexeme where
  /-- A directive. -/
  | directive (d : Directive)
  /-- Three dashes. -/
  | documentStart
  /-- Three points. -/
  | documentEnd
  /-- A bracket that opens. -/
  | opening (b : Bracket)
  /-- A bracket that closes. -/
  | closing (b : Bracket)
  /-- A comma. -/
  | comma
  /-- The mark of an item. -/
  | dash
  /-- The mark of a key. -/
  | question
  /-- The mark of a value. -/
  | colon
  /-- What refers to an anchor. -/
  | reference (name : String)
  /-- An anchor. -/
  | anchor (name : String)
  /-- A tag. -/
  | tag (t : Tag)
  /-- A plain scalar. -/
  | plain (p : Plain)
  /-- A quoted scalar. -/
  | quoted (text : List Char)
  /-- A block scalar. -/
  | block (text : List Char)

/-- What is written where a character stands with others behind it, and what is behind what is
written. -/
def lexemeAt (inFlow : Bool) (margin : Nat) (s : Spot) (rest : List Spot) :
    Option (Lexeme × List Spot) :=
  let plain := (plainAt inFlow margin s.char rest).map fun (p, after) => (.plain p, after)
  if s.char = '%' && s.column = 0 then
    (directiveAt rest).map fun (d, after) => (.directive d, after)
  else if isMarker '-' (s :: rest) then some (.documentStart, rest.drop 2)
  else if isMarker '.' (s :: rest) then some (.documentEnd, rest.drop 2)
  else match s.char with
  | '[' => some (.opening .square, rest)
  | ']' => some (.closing .square, rest)
  | '\x7b' => some (.opening .curly, rest)
  | '\x7d' => some (.closing .curly, rest)
  | ',' => some (.comma, rest)
  | '-' => if atWordEnd rest then some (.dash, rest) else plain
  | '?' => if inFlow || atWordEnd rest then some (.question, rest) else plain
  | ':' => if inFlow || atWordEnd rest then some (.colon, rest) else plain
  | '*' => (anchorAt rest).map fun (name, after) => (.reference name, after)
  | '&' => (anchorAt rest).map fun (name, after) => (.anchor name, after)
  | '!' => (tagAt inFlow rest).map fun (t, after) => (.tag t, after)
  | '|' =>
    if inFlow then none
    else (blockAt true margin rest).map fun (text, after) => (.block text, after)
  | '>' =>
    if inFlow then none
    else (blockAt false margin rest).map fun (text, after) => (.block text, after)
  | '\'' => (quotedFrom '\'' false [] rest).map fun (text, after) => (.quoted text, after)
  | '"' => (quotedFrom '"' false [] rest).map fun (text, after) => (.quoted text, after)
  | '\t' | '#' | '%' | '@' | '\x60' => none
  | _ => plain

/-- What is behind a mapped reading is behind the reading. -/
theorem length_map_le {α β : Type} {read : Option (α × List Spot)} {f : α → β} {n : Nat}
    {b : β} {after : List Spot} (h : read.map (fun (a, after) => (f a, after)) = some (b, after))
    (hread : ∀ a after, read = some (a, after) → after.length ≤ n) : after.length ≤ n := by
  obtain ⟨⟨a, _⟩, hr, heq⟩ := Option.map_eq_some_iff.1 h
  cases heq
  exact hread a _ hr

theorem length_lexemeAt_le {inFlow : Bool} {margin : Nat} {s : Spot} {rest after : List Spot}
    {l : Lexeme} (h : lexemeAt inFlow margin s rest = some (l, after)) :
    after.length ≤ rest.length := by
  have hplain {l after} (h : ((plainAt inFlow margin s.char rest).map
      fun (p, after) => (Lexeme.plain p, after)) = some (l, after)) : after.length ≤ rest.length :=
    length_map_le h fun _ _ => length_plainAt_le
  have hdrop : (rest.drop 2).length ≤ rest.length := by simp
  unfold lexemeAt at h
  simp only at h
  split at h
  · exact length_map_le h fun _ _ => length_directiveAt_le
  split at h
  · cases h; exact hdrop
  split at h
  · cases h; exact hdrop
  split at h
  · cases h; exact Nat.le_refl _
  · cases h; exact Nat.le_refl _
  · cases h; exact Nat.le_refl _
  · cases h; exact Nat.le_refl _
  · cases h; exact Nat.le_refl _
  · split at h
    · cases h; exact Nat.le_refl _
    · exact hplain h
  · split at h
    · cases h; exact Nat.le_refl _
    · exact hplain h
  · split at h
    · cases h; exact Nat.le_refl _
    · exact hplain h
  · exact length_map_le h fun _ _ => length_anchorAt_le
  · exact length_map_le h fun _ _ => length_anchorAt_le
  · exact length_map_le h fun _ _ => length_tagAt_le
  · split at h
    · cases h
    · exact length_map_le h fun _ _ => length_blockAt_le
  · split at h
    · cases h
    · exact length_map_le h fun _ _ => length_blockAt_le
  · exact length_map_le h fun _ _ => length_quotedFrom_le
  · exact length_map_le h fun _ _ => length_quotedFrom_le
  · cases h
  · cases h
  · cases h
  · cases h
  · cases h
  · exact hplain h

end PipeQuery.Yaml
