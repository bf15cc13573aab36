import PipeQuery.Format.Yaml.Spot
import PipeQuery.Text.Radix

/-!
# Quoted and plain scalars

A quoted scalar goes on to its closing quote and a plain one to what cannot be part of
it.  Both may go on over several lines.  The white space and ends of lines between two
words are a *gap*: in one line it is kept, and over lines it is folded.
-/

namespace PipeQuery.Yaml

/-- What is left of the gap between two words: one end of a line is a space, of several the
first is dropped, and white space next to them with it. -/
def folded (gap : List Char) : List Char :=
  match gap.filter isBreak with
  | [] => gap
  | ['\n'] => [' ']
  | '\n' :: more => more
  | breaks => breaks

/-! ## Quoted scalars -/

/-- What one character behind a backslash stands for. -/
def escape? : Char → Option Char
  | '0' => some '\x00'
  | 'a' => some '\x07'
  | 'b' => some '\x08'
  | 't' | '\t' => some '\t'
  | 'n' => some '\n'
  | 'v' => some '\x0b'
  | 'f' => some '\x0c'
  | 'r' => some '\r'
  | 'e' => some '\x1b'
  | ' ' => some ' '
  | '"' => some '"'
  | '/' => some '/'
  | '\\' => some '\\'
  | 'N' => some '\u0085'
  | '_' => some '\u00a0'
  | 'L' => some '\u2028'
  | 'P' => some '\u2029'
  | _ => none

/-- How many hexadecimal digits follow a letter behind a backslash. -/
def escapeWidth? : Char → Option Nat
  | 'x' => some 2
  | 'u' => some 4
  | 'U' => some 8
  | _ => none

/-- What is met in a quoted scalar between gaps. -/
inductive Piece where
  /-- A character of the text. -/
  | letter (c : Char)
  /-- The end of a line behind a backslash. -/
  | lineEnd
  /-- The closing quote. -/
  | close

/-- What stands behind a backslash, and what is behind it. -/
def escapeAt (ahead : List Spot) : Option (Piece × List Spot) :=
  match ahead with
  | [] => none
  | s :: rest =>
    if isBreak s.char then some (.lineEnd, rest)
    else match escape? s.char with
      | some c => some (.letter c, rest)
      | none => do
        let width ← escapeWidth? s.char
        let digits := (rest.take width).map (·.char)
        if digits.length = width then
          let c ← charAt? (← numberIn? 16 digits)
          return (.letter c, rest.drop width)
        else none

/-- The piece that begins with `c`, and what is behind it.  Within single quotes a quote is
written twice and a backslash is nothing special. -/
def pieceAt (quote c : Char) (rest : List Spot) : Option (Piece × List Spot) :=
  if c = quote then
    match rest with
    | [] => some (.close, [])
    | s :: behind =>
      if quote = '\'' && s.char = '\'' then some (.letter c, behind)
      else some (.close, s :: behind)
  else if c = '\\' && quote = '"' then escapeAt rest
  else some (.letter c, rest)

theorem length_escapeAt_le {ahead after : List Spot} {piece : Piece}
    (h : escapeAt ahead = some (piece, after)) : after.length ≤ ahead.length := by
  unfold escapeAt at h
  split at h
  · cases h
  · split at h
    · cases h
      simp
    · split at h
      · cases h
        simp
      · simp only [Option.bind_eq_bind, Option.bind_eq_some_iff] at h
        obtain ⟨width, _, h⟩ := h
        split at h
        · simp only [Option.bind_eq_some_iff] at h
          obtain ⟨_, _, _, _, h⟩ := h
          cases h
          simp only [List.length_drop, List.length_cons]
          omega
        · cases h

theorem length_pieceAt_le {quote c : Char} {rest after : List Spot} {piece : Piece}
    (h : pieceAt quote c rest = some (piece, after)) : after.length ≤ rest.length := by
  unfold pieceAt at h
  split at h
  · split at h
    · cases h
      simp
    · split at h <;> cases h <;> simp
  · split at h
    · exact length_escapeAt_le h
    · cases h
      simp

/-- What is left of a gap in a quoted scalar.  Behind the end of a line that was escaped
only ends of lines are. -/
def quotedGap (escaped : Bool) (gap : List Char) : List Char :=
  if escaped then gap.filter isBreak else folded gap

/-- The text of a quoted scalar from the gap `gap` on, which may be behind the end of a line
that was escaped, and what is behind the closing quote. -/
def quotedFrom (quote : Char) (escaped : Bool) (gap : List Char) (ahead : List Spot) :
    Option (List Char × List Spot) :=
  match ahead with
  | [] => none
  | s :: rest =>
    if isSpace s.char || isBreak s.char then quotedFrom quote escaped (gap ++ [s.char]) rest
    else if atMarker (s :: rest) then none
    else
      match h : pieceAt quote s.char rest with
      | none => none
      | some (piece, after) =>
        have := length_pieceAt_le h
        match piece with
        | .close => some (quotedGap escaped gap, after)
        | .lineEnd =>
          (quotedFrom quote true [] after).map fun (text, after) =>
            (quotedGap escaped gap ++ text, after)
        | .letter c =>
          (quotedFrom quote false [] after).map fun (text, after) =>
            (quotedGap escaped gap ++ c :: text, after)
termination_by ahead.length

theorem length_quotedFrom_le {quote : Char} {escaped : Bool} {gap : List Char}
    {ahead after : List Spot} {text : List Char}
    (h : quotedFrom quote escaped gap ahead = some (text, after)) :
    after.length ≤ ahead.length := by
  fun_induction quotedFrom quote escaped gap ahead generalizing text after <;>
    grind [Option.map_eq_some_iff]

/-! ## Plain scalars -/

/-- The text of a plain scalar. -/
structure Plain where
  /-- The text. -/
  text : List Char
  /-- Whether the gap behind it has the end of a line. -/
  endsLine : Bool

/-- The plain text behind the gap `gap`, and what is behind it.  The collections around it
begin before the column `margin`. -/
def plainFrom (inFlow : Bool) (margin : Nat) (gap : List Char) :
    List Spot → Option (Plain × List Spot)
  | [] => some (⟨[], gap.any isBreak⟩, [])
  | s :: rest =>
    let c := s.char
    let stop := some (⟨[], gap.any isBreak⟩, s :: rest)
    if isSpace c || isBreak c then
      if c = '\t' && gap.any isBreak && s.column < margin then none
      else plainFrom inFlow margin (gap ++ [c]) rest
    else if !gap.isEmpty &&
        (c = '#' || atMarker (s :: rest) || (!inFlow && s.column < margin)) then stop
    else if inFlow && c = ':' &&
        rest.head?.any (fun s => [',', '?', '[', ']', '\x7b', '\x7d'].contains s.char) then none
    else if c = ':' && atWordEnd rest then stop
    else if inFlow && [',', '[', ']', '\x7b', '\x7d'].contains c then stop
    else (plainFrom inFlow margin [] rest).map fun (plain, after) =>
      (⟨folded gap ++ c :: plain.text, plain.endsLine⟩, after)

/-- A plain scalar that begins with this character. -/
def plainAt (inFlow : Bool) (margin : Nat) (c : Char) (rest : List Spot) :
    Option (Plain × List Spot) :=
  (plainFrom inFlow margin [] rest).map fun (plain, after) =>
    (⟨c :: plain.text, plain.endsLine⟩, after)

theorem length_plainFrom_le {inFlow : Bool} {margin : Nat} {gap : List Char}
    {ahead after : List Spot} {plain : Plain}
    (h : plainFrom inFlow margin gap ahead = some (plain, after)) :
    after.length ≤ ahead.length := by
  fun_induction plainFrom inFlow margin gap ahead generalizing plain after <;>
    grind [Option.map_eq_some_iff]

theorem length_plainAt_le {inFlow : Bool} {margin : Nat} {c : Char} {rest after : List Spot}
    {plain : Plain} (h : plainAt inFlow margin c rest = some (plain, after)) :
    after.length ≤ rest.length := by
  obtain ⟨⟨_, _⟩, hp, heq⟩ := Option.map_eq_some_iff.1 h
  cases heq
  exact length_plainFrom_le hp

end PipeQuery.Yaml
