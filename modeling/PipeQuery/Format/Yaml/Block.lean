import PipeQuery.Format.Yaml.Spot

/-!
# Block scalars

A block scalar is made of lines that begin at one column, its *depth*.  A header says how
deep it is and what becomes of the ends of lines behind the last line.  Where the header
does not tell the depth, the first lines do.

A literal scalar keeps its lines.  In a folded one a single end of a line between two
lines that do not begin with white space is a space, and of more the first is dropped.
-/

namespace PipeQuery.Yaml

/-- What becomes of the ends of lines behind the last line. -/
inductive Chomping where
  /-- All go. -/
  | strip
  /-- One stays. -/
  | clip
  /-- All stay. -/
  | keep

/-- What stands in the header of a block scalar. -/
structure Header where
  /-- What becomes of the ends of lines behind. -/
  chomping : Chomping
  /-- How far the lines are indented, if that is told. -/
  indentation : Option Nat

/-- The chomping that a character stands for. -/
def chomping? : Char → Option Chomping
  | '-' => some .strip
  | '+' => some .keep
  | _ => none

/-- The indentation that a character stands for. -/
def indentation? (c : Char) : Option Nat :=
  if c.isDigit && c ≠ '0' then some (c.toNat - '0'.toNat) else none

/-- A chomping in front, and what is behind it. -/
def chompingAt (ahead : List Spot) : Option Chomping × List Spot :=
  match ahead with
  | s :: rest => if (chomping? s.char).isSome then (chomping? s.char, rest) else (none, s :: rest)
  | [] => (none, [])

/-- An indentation in front, and what is behind it. -/
def indentationAt (ahead : List Spot) : Option Nat × List Spot :=
  match ahead with
  | s :: rest =>
    if (indentation? s.char).isSome then (indentation? s.char, rest) else (none, s :: rest)
  | [] => (none, [])

/-- The header behind its mark, in which the two parts come in either order, and the lines
behind it. -/
def headerAt (ahead : List Spot) : Option (Header × List Spot) :=
  match chompingAt ahead with
  | (some chomping, rest) =>
    let (indentation?, rest) := indentationAt rest
    (lineBehind? rest).map fun lines => (⟨chomping, indentation?⟩, lines)
  | (none, _) =>
    let (indentation?, rest) := indentationAt ahead
    let (chomping?, rest) := chompingAt rest
    (lineBehind? rest).map fun lines => (⟨chomping?.getD .clip, indentation?⟩, lines)

/-- The ends of lines up to the first line that is not empty, that line, and the greatest
column at which one of them all goes on behind spaces.  Spaces count up to the column
`depth`, and a tab may not stand before it. -/
def emptyLines (depth : Option Nat) (widest : Nat) :
    List Spot → Option (List Char × Nat × List Spot)
  | [] => some ([], widest, [])
  | s :: rest =>
    if s.char = ' ' && depth.all (s.column < ·) then emptyLines depth widest rest
    else if s.char = '\t' && depth.all (s.column < ·) then none
    else if isBreak s.char then
      (emptyLines depth (max widest s.column) rest).map fun (breaks, found) =>
        (s.char :: breaks, found)
    else some ([], max widest s.column, s :: rest)

theorem length_emptyLines_le {depth : Option Nat} {widest found : Nat} {breaks : List Char}
    {ahead after : List Spot} (h : emptyLines depth widest ahead = some (breaks, found, after)) :
    after.length ≤ ahead.length := by
  induction ahead generalizing widest found breaks with
  | nil => cases h; simp
  | cons s rest ih =>
    unfold emptyLines at h
    split at h
    · exact Nat.le_succ_of_le (ih h)
    · split at h
      · cases h
      · split at h
        · obtain ⟨⟨_, _⟩, hr, heq⟩ := Option.map_eq_some_iff.1 h
          cases heq
          exact Nat.le_succ_of_le (ih hr)
        · cases h
          simp

theorem length_nextLine_lt {depth : Option Nat} {found : Nat} {end_ : Spot} {breaks : List Char}
    {rest behind after : List Spot}
    (hr : rest.dropWhile (fun s => !isBreak s.char) = end_ :: behind)
    (he : emptyLines depth 0 behind = some (breaks, found, after)) :
    after.length < rest.length + 1 := by
  have h₁ := (List.dropWhile_sublist (fun s : Spot => !isBreak s.char) (l := rest)).length_le
  have h₂ := length_emptyLines_le he
  rw [hr] at h₁
  simp only [List.length_cons] at h₁
  omega

/-- What is between two lines of a scalar: the end of the first line, and those behind it.
`touchesSpace` says whether one of the lines begins with white space. -/
def betweenLines (isLiteral touchesSpace : Bool) (first more : List Char) : List Char :=
  if !isLiteral && first = ['\n'] && !touchesSpace then
    if more.isEmpty then [' '] else more
  else first ++ more

/-- What is left of the ends of lines behind the last line. -/
def Chomping.apply (first more : List Char) : Chomping → List Char
  | .strip => []
  | .clip => first
  | .keep => first ++ more

/-- The lines that begin at `depth`, and what is behind them.  Before them is a line that ended
with `first` and began with white space if `afterSpace`, and then the ends of lines `more`. -/
def linesFrom (isLiteral : Bool) (chomping : Chomping) (depth : Nat) (afterSpace : Bool)
    (first more : List Char) (ahead : List Spot) : Option (List Char × List Spot) :=
  match ahead with
  | [] => some (chomping.apply first more, [])
  | s :: rest =>
    if s.column = depth then
      let onSpace := isSpace s.char
      let line := s.char :: (rest.takeWhile fun s => !isBreak s.char).map (·.char)
      let text := betweenLines isLiteral (afterSpace || onSpace) first more ++ line
      match hr : rest.dropWhile fun s => !isBreak s.char with
      | [] => some (text, [])
      | end_ :: behind =>
        match he : emptyLines (some depth) 0 behind with
        | none => none
        | some (breaks, _, after) =>
          have : after.length < rest.length + 1 := length_nextLine_lt hr he
          (linesFrom isLiteral chomping depth onSpace [end_.char] breaks after).map
            fun (more, after) => (text ++ more, after)
    else some (chomping.apply first more, s :: rest)
termination_by ahead.length
decreasing_by exact this

/-- A block scalar behind its mark, and what is behind it.  The collections around it begin
before the column `margin`. -/
def blockAt (isLiteral : Bool) (margin : Nat) (ahead : List Spot) :
    Option (List Char × List Spot) := do
  let (header, lines) ← headerAt ahead
  let told := header.indentation.map (margin - 1 + ·)
  let (breaks, widest, rest) ← emptyLines told 0 lines
  let depth := told.getD (max widest (max margin 1))
  linesFrom isLiteral header.chomping depth false [] breaks rest

/-! ## What is left -/

theorem length_chompingAt_le (ahead : List Spot) :
    (chompingAt ahead).2.length ≤ ahead.length := by
  unfold chompingAt
  grind

theorem length_indentationAt_le (ahead : List Spot) :
    (indentationAt ahead).2.length ≤ ahead.length := by
  unfold indentationAt
  grind

theorem length_headerAt_le {ahead after : List Spot} {header : Header}
    (h : headerAt ahead = some (header, after)) : after.length ≤ ahead.length := by
  unfold headerAt at h
  split at h
  · rename_i chomping rest hc
    obtain ⟨lines, hl, heq⟩ := Option.map_eq_some_iff.1 h
    cases heq
    have h₁ := length_chompingAt_le ahead
    rw [hc] at h₁
    have h₂ := length_indentationAt_le rest
    have h₃ : after.length ≤ (indentationAt rest).2.length := length_lineBehind?_le hl
    simp only at h₁
    omega
  · obtain ⟨lines, hl, heq⟩ := Option.map_eq_some_iff.1 h
    cases heq
    have h₁ := length_indentationAt_le ahead
    have h₂ := length_chompingAt_le (indentationAt ahead).2
    have h₃ : after.length ≤ (chompingAt (indentationAt ahead).2).2.length :=
      length_lineBehind?_le hl
    omega

theorem length_linesFrom_le {isLiteral afterSpace : Bool} {chomping : Chomping} {depth : Nat}
    {first more text : List Char} {ahead after : List Spot}
    (h : linesFrom isLiteral chomping depth afterSpace first more ahead = some (text, after)) :
    after.length ≤ ahead.length := by
  fun_induction linesFrom isLiteral chomping depth afterSpace first more ahead
    generalizing text after <;> grind [Option.map_eq_some_iff]

theorem length_blockAt_le {isLiteral : Bool} {margin : Nat} {ahead after : List Spot}
    {text : List Char} (h : blockAt isLiteral margin ahead = some (text, after)) :
    after.length ≤ ahead.length := by
  simp only [blockAt, Option.bind_eq_bind, Option.bind_eq_some_iff] at h
  obtain ⟨⟨header, lines⟩, hh, ⟨breaks, widest, rest⟩, he, hl⟩ := h
  have h₁ := length_headerAt_le hh
  have h₂ := length_emptyLines_le he
  have h₃ := length_linesFrom_le hl
  simp only at h₁ h₂ h₃
  omega

end PipeQuery.Yaml
