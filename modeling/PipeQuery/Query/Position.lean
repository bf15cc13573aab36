/-!
# Positions in a query

Lines and columns count from one.  `Position.past` moves a position over text.
-/

namespace PipeQuery

/-- A line and a column, both from one. -/
structure Position where
  /-- The line. -/
  line : Nat
  /-- The column. -/
  column : Nat
deriving DecidableEq

namespace Position

/-- The beginning of a text. -/
def start : Position := ⟨1, 1⟩

/-- The position behind a character. -/
def next (p : Position) (c : Char) : Position :=
  if c = '\n' then ⟨p.line + 1, 1⟩ else ⟨p.line, p.column + 1⟩

/-- The position behind some text. -/
def past (p : Position) (cs : List Char) : Position := cs.foldl next p

/-- The position in a message. -/
def describe (p : Position) : String :=
  "line " ++ toString p.line ++ ", column " ++ toString p.column

@[simp] theorem past_nil (p : Position) : p.past [] = p := rfl

theorem past_append (p : Position) (cs ds : List Char) :
    p.past (cs ++ ds) = (p.past cs).past ds := List.foldl_append ..

end Position

end PipeQuery
