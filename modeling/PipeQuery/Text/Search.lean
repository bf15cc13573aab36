/-!
# Searching for a text in a text

Occurrences are found from the left, and the next one begins behind the last.
`partsAt` cuts a text at them, `replaceIn` puts another text in their place, and
`occursIn` asks whether there is one.
-/

namespace PipeQuery

/-- The texts with `separator` between them. -/
def joinWith (separator : List Char) : List (List Char) → List Char
  | [] => []
  | [text] => text
  | text :: rest => text ++ separator ++ joinWith separator rest

/-- Whether `sought` occurs in the text. -/
def occursIn (sought : List Char) : List Char → Bool
  | [] => sought.isEmpty
  | c :: rest => sought.isPrefixOf (c :: rest) || occursIn sought rest

/-- The parts of a text between the occurrences of the text `first :: more`; `part` is what
precedes in the current part. -/
def partsAt (first : Char) (more part : List Char) (cs : List Char) : List (List Char) :=
  match cs with
  | [] => [part]
  | c :: rest =>
    if (first :: more).isPrefixOf (c :: rest) then
      part :: partsAt first more [] (rest.drop more.length)
    else partsAt first more (part ++ [c]) rest
termination_by cs.length
decreasing_by
  all_goals simp only [List.length_cons, List.length_drop]
  all_goals omega

/-- The text with `new` in place of the occurrences of the text `first :: more`, or of as many
of them as `limit` says. -/
def replaceIn (first : Char) (more new : List Char) (limit : Option Nat) (cs : List Char) :
    List Char :=
  match cs with
  | [] => []
  | c :: rest =>
    if limit ≠ some 0 && (first :: more).isPrefixOf (c :: rest) then
      new ++ replaceIn first more new (limit.map (· - 1)) (rest.drop more.length)
    else c :: replaceIn first more new limit rest
termination_by cs.length
decreasing_by
  all_goals simp only [List.length_cons, List.length_drop]
  all_goals omega

/-- The parts of a text between the occurrences of another; at the empty text, the single
characters. -/
def splitText (separator cs : List Char) : List (List Char) :=
  match separator with
  | [] => cs.map fun c => [c]
  | first :: more => partsAt first more [] cs

end PipeQuery
