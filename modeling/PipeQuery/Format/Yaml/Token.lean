import PipeQuery.Format.Yaml.Lexeme

/-!
# Tokens from layout

In block collections what is written does not tell where they begin and end: columns do.
`tokens?` puts in what is left unsaid.  A collection begins at a mark or key that stands
right of the collections around it, and ends where something stands left of it.

A key without a mark is known only by the colon behind it.  So where a key may begin a
*candidate* is noted, one for each level of brackets; a colon makes it a key.  It has to
be in the line of the colon and not far before it.  Where every line has to begin with a
key, a candidate that comes to nothing is an error.
-/

namespace PipeQuery.Yaml

/-- What is written, with the beginnings and ends of block collections. -/
inductive Token where
  /-- A directive. -/
  | directive (d : Directive)
  /-- A document begins. -/
  | documentStart
  /-- A document ends. -/
  | documentEnd
  /-- Items in lines begin. -/
  | sequenceStart
  /-- Keys and values in lines begin. -/
  | mappingStart
  /-- What began last in lines ends. -/
  | blockEnd
  /-- A bracket opens. -/
  | opening (b : Bracket)
  /-- A bracket closes. -/
  | closing (b : Bracket)
  /-- A comma. -/
  | comma
  /-- An item follows. -/
  | item
  /-- A key follows. -/
  | key
  /-- A value follows. -/
  | value
  /-- What refers to an anchor. -/
  | reference (name : String)
  /-- An anchor. -/
  | anchor (name : String)
  /-- A tag. -/
  | tag (t : Tag)
  /-- A scalar. -/
  | scalar (isPlain : Bool) (text : List Char)

/-- What may turn out to be a key. -/
structure Candidate where
  /-- Where it begins. -/
  spot : Spot
  /-- How many tokens are before it. -/
  before : Nat
  /-- Whether it has to be a key. -/
  isRequired : Bool

/-- How far a colon may be from the beginning of its key. -/
def keyLimit : Nat := 1024

/-- Whether a candidate cannot be a key of a colon at `s` or behind it. -/
def Candidate.isPast (c : Candidate) (s : Spot) : Bool :=
  c.spot.line < s.line || c.spot.index + keyLimit < s.index

/-- What has been read. -/
structure Layout where
  /-- The tokens so far. -/
  tokens : Array Token
  /-- The columns at which block collections have begun, the innermost first. -/
  columns : List Nat
  /-- The candidate at this level of brackets. -/
  candidate : Option Candidate
  /-- The candidates at the levels around, the innermost first. -/
  outer : List (Option Candidate)
  /-- Whether a key may begin here. -/
  mayBegin : Bool

namespace Layout

/-- Before anything is read. -/
def start : Layout := ⟨#[], [], none, [], true⟩

/-- Whether there are brackets around. -/
def inFlow (l : Layout) : Bool := !l.outer.isEmpty

/-- The column from which on a line belongs to the innermost collection. -/
def margin (l : Layout) : Nat :=
  match l.columns with
  | [] => 0
  | column :: _ => column + 1

/-- One more token. -/
def push (t : Token) (l : Layout) : Layout := { l with tokens := l.tokens.push t }

/-- What may follow. -/
def allow (mayBegin : Bool) (l : Layout) : Layout := { l with mayBegin := mayBegin }

/-- The block collections at the column `least` and right of it end, out of brackets. -/
def endFrom (least : Nat) (l : Layout) : Layout :=
  if l.inFlow then l
  else
    let ended := l.columns.takeWhile (least ≤ ·)
    { l with
      tokens := l.tokens ++ List.replicate ended.length Token.blockEnd
      columns := l.columns.dropWhile (least ≤ ·) }

/-- A block collection begins with the token `t` behind `before` tokens, if none has begun at
`column` or right of it. -/
def beginAt (column before : Nat) (t : Token) (l : Layout) : Layout :=
  if l.inFlow || column < l.margin then l
  else
    { l with
      tokens := l.tokens.insertIdxIfInBounds before t
      columns := column :: l.columns }

/-- A block collection begins with the token `t` here, where a key may begin. -/
def beginHere (s : Spot) (t : Token) (l : Layout) : Option Layout :=
  if l.inFlow then some l
  else if l.mayBegin then some (l.beginAt s.column l.tokens.size t)
  else none

/-- The candidate is no key. -/
def drop (l : Layout) : Option Layout :=
  if l.candidate.any (·.isRequired) then none else some { l with candidate := none }

/-- What stands here is a candidate, if a key may begin here. -/
def offer (s : Spot) (l : Layout) : Option Layout :=
  if l.mayBegin then
    let isRequired := !l.inFlow && l.margin = s.column + 1
    l.drop.map ({ · with candidate := some ⟨s, l.tokens.size, isRequired⟩ })
  else some l

/-- The candidates that cannot be keys any more are dropped. -/
def dropPast (s : Spot) (l : Layout) : Option Layout :=
  let past := fun (c? : Option Candidate) => c?.filter (·.isPast s)
  let present := fun (c? : Option Candidate) => c?.filter (!·.isPast s)
  if (l.candidate :: l.outer).any fun c? => (past c?).any (·.isRequired) then none
  else some { l with candidate := present l.candidate, outer := l.outer.map present }

/-- A bracket opens. -/
def enter (l : Layout) : Layout :=
  { l with candidate := none, outer := l.candidate :: l.outer, mayBegin := true }

/-- A bracket closes. -/
def leave (l : Layout) : Layout :=
  match l.outer with
  | [] => { l with mayBegin := false }
  | c? :: outer => { l with candidate := c?, outer := outer, mayBegin := false }

/-- A colon. -/
def colon (s : Spot) (l : Layout) : Option Layout :=
  match l.candidate with
  | some c =>
    let l := { l with tokens := l.tokens.insertIdxIfInBounds c.before .key, candidate := none }
    some (((l.beginAt c.spot.column c.before .mappingStart).allow false).push .value)
  | none => (l.beginHere s .mappingStart).map fun l => (l.allow !l.inFlow).push .value

/-- What has been read with what is written at `s`. -/
def take (s : Spot) (written : Lexeme) (l : Layout) : Option Layout :=
  match written with
  | .directive d => (l.endFrom 0).drop.map fun l => (l.allow false).push (.directive d)
  | .documentStart => (l.endFrom 0).drop.map fun l => (l.allow false).push .documentStart
  | .documentEnd => (l.endFrom 0).drop.map fun l => (l.allow false).push .documentEnd
  | .opening b => (l.offer s).map fun l => l.enter.push (.opening b)
  | .closing b => l.drop.map fun l => l.leave.push (.closing b)
  | .comma => l.drop.map fun l => (l.allow true).push .comma
  | .dash => do
    let l ← (← l.beginHere s .sequenceStart).drop
    return (l.allow true).push .item
  | .question => do
    let l ← (← l.beginHere s .mappingStart).drop
    return (l.allow !l.inFlow).push .key
  | .colon => l.colon s
  | .reference name => (l.offer s).map fun l => (l.allow false).push (.reference name)
  | .anchor name => (l.offer s).map fun l => (l.allow false).push (.anchor name)
  | .tag t => (l.offer s).map fun l => (l.allow false).push (.tag t)
  | .plain p => (l.offer s).map fun l => (l.allow p.endsLine).push (.scalar true p.text)
  | .quoted text => (l.offer s).map fun l => (l.allow false).push (.scalar false text)
  | .block text => l.drop.map fun l => (l.allow true).push (.scalar false text)

end Layout

/-- What is behind white space, comments and ends of lines, and whether a key may begin
there.  Out of brackets a tab is no white space where a key may begin, and one may begin in
every line. -/
def skipGap (inFlow inComment mayBegin : Bool) : List Spot → Bool × List Spot
  | [] => (mayBegin, [])
  | s :: rest =>
    if isBreak s.char then skipGap inFlow false (mayBegin || !inFlow) rest
    else if inComment || s.char = ' ' || (s.char = '\t' && (inFlow || !mayBegin)) then
      skipGap inFlow inComment mayBegin rest
    else if s.char = '#' then skipGap inFlow true mayBegin rest
    else (mayBegin, s :: rest)

theorem length_skipGap_le (inFlow inComment mayBegin : Bool) (ahead : List Spot) :
    (skipGap inFlow inComment mayBegin ahead).2.length ≤ ahead.length := by
  fun_induction skipGap inFlow inComment mayBegin ahead <;> grind

/-- The tokens of the text ahead, behind what has been read. -/
def tokensFrom (l : Layout) (ahead : List Spot) : Option (List Token) :=
  match h : skipGap l.inFlow false l.mayBegin ahead with
  | (_, []) => (l.endFrom 0).drop.map (·.tokens.toList)
  | (mayBegin, s :: rest) => do
    let present ← (l.allow mayBegin).dropPast s
    let here := present.endFrom (s.column + 1)
    match hw : lexemeAt here.inFlow here.margin s rest with
    | none => none
    | some (written, after) =>
      have : after.length < ahead.length := by
        have h₁ := length_skipGap_le l.inFlow false l.mayBegin ahead
        have h₂ := length_lexemeAt_le hw
        rw [h] at h₁
        simp only [List.length_cons] at h₁
        omega
      tokensFrom (← here.take s written) after
termination_by ahead.length

/-- The tokens of a text. -/
def tokens? (ahead : List Spot) : Option (List Token) := tokensFrom .start ahead

end PipeQuery.Yaml
