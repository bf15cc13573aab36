import PipeQuery.Text.Case

/-!
# Patterns and the ways they match

A pattern matches from a place in a text in several ways, and which of them counts
depends on an order of preference: an alternative is preferred to those after it,
and a repetition prefers one more round, or one less if it is reluctant.
`Pattern.ways` lists the ways in this order.

What comes after a pattern depends on the place where it ended and on nothing
else.  So of several ways that end at one place only the first is kept, and no
list is longer than the text.  A round of a repetition that stays where it began
is followed by no other round.
-/

namespace PipeQuery.Regex

/-- A place in a text, with the characters around it. -/
structure Place where
  /-- How many characters precede. -/
  offset : Nat
  /-- The character before, if any. -/
  before : Option Char
  /-- The characters behind. -/
  ahead : List Char

namespace Place

/-- The beginning of a text. -/
def start (text : List Char) : Place := ⟨0, none, text⟩

/-- The place one character on. -/
def next? (p : Place) : Option Place :=
  match p.ahead with
  | [] => none
  | c :: rest => some ⟨p.offset + 1, some c, rest⟩

end Place

/-- What a place has to be with regard to words. -/
inductive Edge where
  /-- An end of a word. -/
  | boundary
  /-- Not an end of a word. -/
  | inside
  /-- The beginning of a word. -/
  | wordStart
  /-- The end of a word. -/
  | wordEnd
  /-- No word goes on before. -/
  | noWordBefore
  /-- No word goes on behind. -/
  | noWordBehind

/-- A condition on a place. -/
inductive Assertion where
  /-- The beginning of the text. -/
  | textStart
  /-- The end of the text. -/
  | textEnd
  /-- The beginning of a line; lines may also end in a carriage return, alone or before a line
  feed. -/
  | lineStart (returns : Bool)
  /-- The end of a line. -/
  | lineEnd (returns : Bool)
  /-- An edge of words made of these characters. -/
  | edge (e : Edge) (isWord : Char → Bool)

namespace Assertion

/-- Whether the assertion holds at a place. -/
def holds (a : Assertion) (p : Place) : Bool :=
  match a with
  | .textStart => p.before.isNone
  | .textEnd => p.ahead.isEmpty
  | .lineStart false => p.before.all (· = '\n')
  | .lineStart true =>
    p.before.all fun c => c = '\n' || (c = '\r' && p.ahead.head? != some '\n')
  | .lineEnd false => p.ahead.head?.all (· = '\n')
  | .lineEnd true =>
    p.ahead.head?.all fun c => c = '\r' || (c = '\n' && p.before != some '\r')
  | .edge e isWord =>
    let wordBefore := p.before.any isWord
    let wordBehind := p.ahead.head?.any isWord
    match e with
    | .boundary => wordBefore != wordBehind
    | .inside => wordBefore == wordBehind
    | .wordStart => !wordBefore && wordBehind
    | .wordEnd => wordBefore && !wordBehind
    | .noWordBefore => !wordBefore
    | .noWordBehind => !wordBehind

end Assertion

/-- A pattern. -/
inductive Pattern where
  /-- The empty text. -/
  | empty
  /-- One character of a set. -/
  | char (set : Char → Bool)
  /-- A condition on the place. -/
  | assert (a : Assertion)
  /-- What the pattern matches is captured as a group with this number. -/
  | group (number : Nat) (p : Pattern)
  /-- One after the other. -/
  | seq (p q : Pattern)
  /-- One or else the other. -/
  | either (p q : Pattern)
  /-- From `least` to `most` times, or without a bound. -/
  | many (p : Pattern) (least : Nat) (most : Option Nat) (greedy : Bool)

/-- What a group captured. -/
structure Capture where
  /-- The number of the group. -/
  group : Nat
  /-- Where it begins. -/
  start : Nat
  /-- Where it ends. -/
  stop : Nat

/-- A way to match. -/
structure Way where
  /-- Where it ends. -/
  place : Place
  /-- What it captured, the latest first. -/
  captured : List Capture

/-- The ways with those left out that end where an earlier one ends. -/
def distinctPlaces (ways : List Way) : List Way :=
  ways.eraseDupsBy fun a b => a.place.offset == b.place.offset

section Rounds

variable (round : Way → List Way) (greedy : Bool)

/-- The ways of exactly so many rounds. -/
def exactly : Nat → Way → List Way
  | 0, w => [w]
  | n + 1, w => distinctPlaces ((exactly n w).flatMap round)

/-- The ways of at most so many rounds. -/
def atMost : Nat → Way → List Way
  | 0, w => [w]
  | n + 1, w =>
    let more := (round w).flatMap (atMost n)
    distinctPlaces (if greedy then more ++ [w] else w :: more)

/-- The ways to go on after a round from `start` that ended in one of `ends`; `seen` are the
places where a round has ended already.  Every level of further rounds is at a later place, so
that `levels` need not be more than the characters ahead. -/
def goOn (start : Nat) : (levels : Nat) → (seen : List Nat) → (ends : List Way) →
    List Nat × List Way
  | 0, seen, _ => (seen, [])
  | levels + 1, seen, ends =>
    ends.foldl
      (fun (seen, found) w =>
        let here := w.place.offset
        if seen.contains here then (seen, found)
        else
          let (seen, further) :=
            if here = start then (here :: seen, [])
            else goOn start levels (here :: seen) (round w)
          (seen, found ++ if greedy then further ++ [w] else w :: further))
      (seen, [])

/-- The ways of one round or more. -/
def onceOrMore (w : Way) : List Way :=
  (goOn round greedy w.place.offset (w.place.ahead.length + 1) [] (round w)).2

/-- The ways of so many rounds or more. -/
def atLeast : Nat → Way → List Way
  | 0, w =>
    let more := onceOrMore round greedy w
    distinctPlaces (if greedy then more ++ [w] else w :: more)
  | n + 1, w => distinctPlaces ((exactly round n w).flatMap (onceOrMore round greedy))

end Rounds

namespace Pattern

/-- The ways in which the pattern matches from where `w` ended, the preferred ones first. -/
def ways : Pattern → Way → List Way
  | .empty, w => [w]
  | .char set, w =>
    match w.place.ahead with
    | [] => []
    | c :: rest => if set c then [⟨⟨w.place.offset + 1, some c, rest⟩, w.captured⟩] else []
  | .assert a, w => if a.holds w.place then [w] else []
  | .group number p, w =>
    (p.ways w).map fun found =>
      ⟨found.place, ⟨number, w.place.offset, found.place.offset⟩ :: found.captured⟩
  | .seq p q, w => distinctPlaces ((p.ways w).flatMap q.ways)
  | .either p q, w => distinctPlaces (p.ways w ++ q.ways w)
  | .many p least none greedy, w => atLeast p.ways greedy least w
  | .many p least (some most) greedy, w =>
    distinctPlaces ((exactly p.ways least w).flatMap (atMost p.ways greedy (most - least)))

/-- Patterns one after the other. -/
def seqs : List Pattern → Pattern
  | [] => .empty
  | [p] => p
  | p :: rest => .seq p (seqs rest)

/-- The first of the patterns that matches. -/
def firstOf : List Pattern → Pattern
  | [] => .char fun _ => false
  | [p] => p
  | p :: rest => .either p (firstOf rest)

/-- How many characters and conditions the pattern has when repetitions are written out. -/
def size : Pattern → Nat
  | .empty | .char _ | .assert _ => 1
  | .group _ p => p.size + 2
  | .seq p q => p.size + q.size
  | .either p q => p.size + q.size + 1
  | .many p least most _ => (p.size + 1) * max 1 (most.getD least)

end Pattern

end PipeQuery.Regex
