import PipeQuery.Format.Json.Scalar
import PipeQuery.Value.Basic

/-!
# Reading JSON

`read` reads a text as one JSON value.  Containers may nest `maxDepth` deep.  A
key that comes again keeps its first place and takes the last value.  Numbers
are read to the nearest number, and one that is beyond the finite numbers is an
error.
-/

namespace PipeQuery.Json

/-- How deep containers may nest. -/
def maxDepth : Nat := 127

/-- White space between tokens. -/
def isSpace (c : Char) : Bool := c = ' ' || c = '\n' || c = '\t' || c = '\r'

/-- The text without white space in front. -/
def skipSpace (cs : List Char) : List Char := cs.dropWhile isSpace

theorem length_skipSpace_le (cs : List Char) : (skipSpace cs).length ≤ cs.length :=
  (List.dropWhile_sublist _).length_le

/-- Text that is shorter than `cs`. -/
abbrev Rest (cs : List Char) := { rest : List Char // rest.length < cs.length }

/-- Reads the characters of a word, the first of which has been read. -/
def wordAt (v : Value) : List Char → (cs : List Char) →
    Except Fault (Value × { rest : List Char // rest.length ≤ cs.length })
  | [], cs => .ok (v, ⟨cs, Nat.le_refl _⟩)
  | _ :: _, [] => faultAt .endInValue []
  | expected :: word, c :: rest =>
    if c = expected then
      (wordAt v word rest).map fun (v, r) => (v, ⟨r.1, Nat.le_succ_of_le r.2⟩)
    else faultAt .expectedWord rest

/-- A text and what is behind its closing quote, behind the opening one. -/
def stringValueAt (cs : List Char) : Except Fault (String × Rest cs) :=
  match h : stringAt cs with
  | .ok (text, rest) => .ok (String.ofList text, ⟨rest, length_stringAt_lt h⟩)
  | .error fault => .error fault

/-- A number and what is behind it, behind its sign. -/
def numberValueAt (negative : Bool) (cs : List Char) : Except Fault (Value × Rest cs) :=
  match h : numberAt negative cs with
  | .ok (n, rest) => .ok (.number n, ⟨rest, length_numberAt_lt h⟩)
  | .error fault => .error fault

/-- What is behind a colon. -/
def colonAt (cs : List Char) : Except Fault (Rest cs) :=
  match h : skipSpace cs with
  | [] => faultPeeking .endInObject []
  | c :: rest =>
    if c = ':' then
      .ok ⟨rest, by
        have := length_skipSpace_le cs
        rw [h] at this
        exact this⟩
    else faultPeeking .expectedColon (c :: rest)

mutual

/-- A value, its containers nesting `depth` deep at most, and what is behind it. -/
def valueAt (depth : Nat) (cs : List Char) : Except Fault (Value × Rest cs) :=
  match h : skipSpace cs with
  | [] => faultPeeking .endInValue []
  | c :: rest =>
    have hlen : rest.length < cs.length := by
      have := length_skipSpace_le cs
      rw [h] at this
      exact this
    let within {α : Type} (x : Except Fault (α × Rest rest)) : Except Fault (α × Rest cs) :=
      x.map fun (v, r) => (v, ⟨r.1, Nat.lt_trans r.2 hlen⟩)
    let word (v : Value) (letters : List Char) : Except Fault (Value × Rest cs) :=
      (wordAt v letters rest).map fun (v, r) => (v, ⟨r.1, Nat.lt_of_le_of_lt r.2 hlen⟩)
    match (motive := Char → Except Fault (Value × Rest cs)) c with
    | 'n' => word .null ['u', 'l', 'l']
    | 't' => word (.boolean true) ['r', 'u', 'e']
    | 'f' => word (.boolean false) ['a', 'l', 's', 'e']
    | '"' => within ((stringValueAt rest).map fun (s, r) => (.string s, r))
    | '-' => within (numberValueAt true rest)
    | '[' =>
      match depth with
      | 0 => faultPeeking .tooDeep (c :: rest)
      | depth + 1 => within ((itemsAt depth true rest).map fun (xs, r) => (.array xs, r))
    | '\x7b' =>
      match depth with
      | 0 => faultPeeking .tooDeep (c :: rest)
      | depth + 1 =>
        within ((membersAt depth true rest).map fun (xs, r) => (.object (Entries.ofList xs), r))
    | _ =>
      if c.isDigit then
        (numberValueAt false (c :: rest)).map fun (v, r) => (v, ⟨r.1, by
          have := r.2
          simp only [List.length_cons] at this
          omega⟩)
      else faultPeeking .expectedValue (c :: rest)
termination_by 2 * cs.length

/-- The items up to the closing bracket, `first` if none has been read, and what is behind the
bracket. -/
def itemsAt (depth : Nat) (first : Bool) (cs : List Char) :
    Except Fault (List Value × Rest cs) :=
  match h : skipSpace cs with
  | [] => faultPeeking .endInList []
  | c :: rest => do
    have hlen : rest.length < cs.length := by
      have := length_skipSpace_le cs
      rw [h] at this
      exact this
    if c = ']' then return ([], ⟨rest, hlen⟩)
    else if first then
      let (v, ⟨r₁, h₁⟩) ← valueAt depth cs
      let (vs, ⟨r₂, h₂⟩) ← itemsAt depth false r₁
      return (v :: vs, ⟨r₂, Nat.lt_trans h₂ h₁⟩)
    else if c = ',' then
      match skipSpace rest with
      | [] => faultPeeking .endInValue []
      | d :: behind =>
        if d = ']' then faultPeeking .trailingComma (d :: behind)
        else
          let (v, ⟨r₁, h₁⟩) ← valueAt depth rest
          let (vs, ⟨r₂, h₂⟩) ← itemsAt depth false r₁
          return (v :: vs, ⟨r₂, by omega⟩)
    else faultPeeking .expectedCommaOrBracket (c :: rest)
termination_by 2 * cs.length + 1

/-- The keys and values up to the closing brace, `first` if none has been read, and what is
behind the brace. -/
def membersAt (depth : Nat) (first : Bool) (cs : List Char) :
    Except Fault (List (String × Value) × Rest cs) :=
  match h : skipSpace cs with
  | [] => faultPeeking .endInObject []
  | c :: rest => do
    have hlen : rest.length < cs.length := by
      have := length_skipSpace_le cs
      rw [h] at this
      exact this
    if c = '\x7d' then return ([], ⟨rest, hlen⟩)
    else if first then
      if c = '"' then
        let (m, ⟨r₁, h₁⟩) ← memberAt depth rest
        let (ms, ⟨r₂, h₂⟩) ← membersAt depth false r₁
        return (m :: ms, ⟨r₂, by omega⟩)
      else faultPeeking .keyNotString (c :: rest)
    else if c = ',' then
      match h' : skipSpace rest with
      | [] => faultPeeking .endInValue []
      | d :: behind =>
        have hlen' : behind.length < rest.length := by
          have := length_skipSpace_le rest
          rw [h'] at this
          exact this
        if d = '"' then
          let (m, ⟨r₁, h₁⟩) ← memberAt depth behind
          let (ms, ⟨r₂, h₂⟩) ← membersAt depth false r₁
          return (m :: ms, ⟨r₂, by omega⟩)
        else if d = '\x7d' then faultPeeking .trailingComma (d :: behind)
        else faultPeeking .keyNotString (d :: behind)
    else faultPeeking .expectedCommaOrBrace (c :: rest)
termination_by 2 * cs.length + 1

/-- A key behind its opening quote, a colon and a value, and what is behind it. -/
def memberAt (depth : Nat) (cs : List Char) : Except Fault ((String × Value) × Rest cs) := do
  let (key, ⟨r₁, h₁⟩) ← stringValueAt cs
  let ⟨r₂, h₂⟩ ← colonAt r₁
  let (v, ⟨r₃, h₃⟩) ← valueAt depth r₂
  return ((key, v), ⟨r₃, by omega⟩)
termination_by 2 * cs.length + 1

end

/-- A value with nothing behind it, its containers nesting `depth` deep at most. -/
def readWithin (depth : Nat) (cs : List Char) : Except Fault Value := do
  let (v, ⟨rest, _⟩) ← valueAt depth cs
  match skipSpace rest with
  | [] => return v
  | rest => faultPeeking .trailingCharacters rest

/-- The value that a JSON text spells. -/
def read (text : String) : Except Error Value :=
  (readWithin maxDepth text.toList).mapError (Fault.toError text.toList)

end PipeQuery.Json
