import PipeQuery.Regex.Pattern
import PipeQuery.Value.Path

/-!
# Matches in a text

The match of a pattern is the preferred way from the first place from which there
is any.  `matchesIn` lists all matches one after the other; an empty match where
the one before it ended does not count.

Texts are split at matches, and matches are replaced by a template in which
`$name` and `${name}` stand for groups.
-/

namespace PipeQuery

/-- A pattern whose groups may have names. -/
structure Regex where
  /-- The pattern. -/
  pattern : Regex.Pattern
  /-- The names of groups. -/
  names : List (String × Nat)

namespace Regex

/-- A match. -/
structure Match where
  /-- Where it begins. -/
  start : Nat
  /-- Where it ends. -/
  stop : Place
  /-- What it captured. -/
  captured : List Capture

/-- The characters from one offset to another. -/
def slice (text : List Char) (start stop : Nat) : List Char := (text.take stop).drop start

/-- The first match that begins at `offset` or later, `ahead` being what follows there. -/
def firstFrom (r : Regex) (offset : Nat) (before : Option Char) (ahead : List Char) :
    Option Match :=
  match r.pattern.ways ⟨⟨offset, before, ahead⟩, []⟩ with
  | w :: _ => some ⟨offset, w.place, w.captured⟩
  | [] =>
    match ahead with
    | [] => none
    | c :: rest => firstFrom r (offset + 1) (some c) rest

/-- The matches from a place on; `fresh` says that no match ended here.  A step goes on to a
later place or stays and is no longer fresh, so that `steps` need not be more than twice the
characters ahead and one. -/
def matchesFrom (r : Regex) : (steps : Nat) → (p : Place) → (fresh : Bool) → List Match
  | 0, _, _ => []
  | steps + 1, p, fresh =>
    match firstFrom r p.offset p.before p.ahead with
    | none => []
    | some m =>
      if m.stop.offset = p.offset && !fresh then
        match p.next? with
        | none => []
        | some q => matchesFrom r steps q true
      else m :: matchesFrom r steps m.stop false

/-- All matches in a text. -/
def matchesIn (r : Regex) (text : List Char) : List Match :=
  matchesFrom r (2 * text.length + 2) (.start text) true

/-- Whether there is a match in a text. -/
def isMatch (r : Regex) (text : List Char) : Bool := (firstFrom r 0 none text).isSome

/-! ## Splitting -/

/-- The text from `start` on, cut at matches. -/
def splitAt (text : List Char) (start : Nat) : List Match → List (List Char)
  | [] => [text.drop start]
  | m :: rest => slice text start m.start :: splitAt text m.stop.offset rest

/-- The parts of a text between matches. -/
def split (r : Regex) (text : List Char) : List (List Char) := splitAt text 0 (r.matchesIn text)

/-! ## Replacing -/

/-- A piece of a template. -/
inductive Piece where
  /-- A character as it is. -/
  | char (c : Char)
  /-- What the group with this number or name captured. -/
  | group (reference : List Char)

/-- Whether a name in a template may go on with this character. -/
def isReferenceChar (c : Char) : Bool := c.isAlphanum || c = '_'

/-- The pieces of a template.  Two dollar signs are one; a dollar sign before anything that is
no name stands for itself. -/
def pieces (template : List Char) : List Piece :=
  match template with
  | [] => []
  | '$' :: '$' :: rest => .char '$' :: pieces rest
  | '$' :: '\x7b' :: rest =>
    if rest.contains '\x7d' then
      .group (rest.takeWhile (· ≠ '\x7d')) :: pieces ((rest.dropWhile (· ≠ '\x7d')).drop 1)
    else .char '$' :: pieces ('\x7b' :: rest)
  | '$' :: rest =>
    if (rest.takeWhile isReferenceChar).isEmpty then .char '$' :: pieces rest
    else .group (rest.takeWhile isReferenceChar) :: pieces (rest.dropWhile isReferenceChar)
  | c :: rest => .char c :: pieces rest
termination_by template.length
decreasing_by
  all_goals simp only [List.length_cons, List.length_drop]
  all_goals
    try have h₁ :=
      (List.dropWhile_sublist (fun c : Char => decide (c ≠ '\x7d')) (l := rest)).length_le
    try have h₂ := (List.dropWhile_sublist isReferenceChar (l := rest)).length_le
    omega

/-- What a group captured in a match; nothing if there is no such group or it took no part. -/
def Match.group (m : Match) (r : Regex) (text : List Char) (reference : List Char) : List Char :=
  let number? :=
    match readIndex? reference with
    | some n => some n
    | none => r.names.lookup (String.ofList reference)
  match number? with
  | none => []
  | some 0 => slice text m.start m.stop.offset
  | some n =>
    match m.captured.find? (·.group == n) with
    | some c => slice text c.start c.stop
    | none => []

/-- A template filled in for a match. -/
def Match.fill (m : Match) (r : Regex) (text : List Char) (template : List Piece) : List Char :=
  template.flatMap fun
    | .char c => [c]
    | .group reference => m.group r text reference

/-- The text from `start` on with matches replaced. -/
def replaceAt (r : Regex) (template : List Piece) (text : List Char) (start : Nat) :
    List Match → List Char
  | [] => text.drop start
  | m :: rest =>
    slice text start m.start ++ m.fill r text template
      ++ replaceAt r template text m.stop.offset rest

/-- The text with its matches replaced, or only the first ones of them. -/
def replace (r : Regex) (text template : List Char) (limit : Option Nat) : List Char :=
  let found := r.matchesIn text
  let replaced := match limit with
    | some n => found.take n
    | none => found
  replaceAt r (pieces template) text 0 replaced

end Regex

end PipeQuery
