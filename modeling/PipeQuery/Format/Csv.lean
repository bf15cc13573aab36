import PipeQuery.Format.Options
import PipeQuery.Value.Basic

/-!
# Delimited text

`records` reads a text as records of fields.  A record ends at a line feed, a
carriage return or both; empty lines and comments are between records, but a
comment that the text ends in counts as a record of one empty field.  A field
may begin with a quote; it then goes to the next single quote, two quotes inside
being one, and what follows the closing quote up to the delimiter is part of it.
A byte order mark in front of the text does not belong to it.

`table` makes rows of records: arrays of texts, or objects when the first record
names the fields.  `read` also holds the records to one length, unless it may
vary.
-/

namespace PipeQuery.Csv

/-- Where a record begins; lines and records that come before are counted. -/
structure Place where
  /-- The bytes before. -/
  byte : Nat
  /-- The line, from one. -/
  line : Nat
deriving DecidableEq

/-- The place behind a character. -/
def Place.after (p : Place) (c : Char) : Place :=
  ⟨p.byte + c.utf8Size, if c = '\n' then p.line + 1 else p.line⟩

/-- A record, and the place behind the record before it. -/
structure Record where
  /-- The fields. -/
  fields : List String
  /-- Where the record begins. -/
  place : Place
deriving DecidableEq

/-- Where in the text a reader is. -/
inductive Phase where
  /-- Between records. -/
  | between
  /-- Behind a carriage return that ended a record. -/
  | afterReturn
  /-- In a comment. -/
  | inComment
  /-- At the beginning of a field. -/
  | fieldStart
  /-- In a field. -/
  | inField
  /-- Behind the opening quote of a field. -/
  | inQuotes
  /-- Behind a quote in a field that began with one. -/
  | afterQuote
deriving DecidableEq

/-- What has been read. -/
structure State where
  /-- Where the reader is. -/
  phase : Phase
  /-- Where the current record begins. -/
  start : Place
  /-- The place of the next character. -/
  here : Place
  /-- The fields of the current record, the latest first. -/
  fields : List String
  /-- The characters of the current field, the latest first. -/
  field : List Char
  /-- The records before, the latest first. -/
  records : List Record

namespace State

/-- The field that has been read, and a new one after it. -/
def endField (s : State) : State :=
  { s with phase := .fieldStart, fields := String.ofList s.field.reverse :: s.fields, field := [] }

/-- The record that has been read, and a new one after it in this phase. -/
def endRecord (s : State) (phase : Phase) : State :=
  let fields := (String.ofList s.field.reverse :: s.fields).reverse
  { s with
    phase, start := s.here, fields := [], field := [], records := ⟨fields, s.start⟩ :: s.records }

/-- One character more in the current field. -/
def push (s : State) (c : Char) (phase : Phase) : State :=
  { s with phase, field := c :: s.field }

end State

/-- A character that stands in a field outside quotes. -/
def stepField (opts : CsvOptions) (s : State) (c : Char) : State :=
  if c = opts.delimiter then s.endField
  else if c = '\n' then s.endRecord .between
  else if c = '\r' then s.endRecord .afterReturn
  else s.push c .inField

/-- A character at the beginning of a field. -/
def stepFieldStart (opts : CsvOptions) (s : State) (c : Char) : State :=
  if c = '"' then { s with phase := .inQuotes } else stepField opts s c

/-- A character between records. -/
def stepBetween (opts : CsvOptions) (s : State) (c : Char) : State :=
  if c = '\n' || c = '\r' then { s with phase := .between }
  else if opts.comment = some c then { s with phase := .inComment }
  else stepFieldStart opts s c

/-- One character. -/
def step (opts : CsvOptions) (s : State) (c : Char) : State :=
  let s := { s with here := s.here.after c }
  match s.phase with
  | .between => stepBetween opts s c
  | .afterReturn => if c = '\n' then { s with phase := .between } else stepBetween opts s c
  | .inComment => if c = '\n' then { s with phase := .between } else s
  | .fieldStart => stepFieldStart opts s c
  | .inField => stepField opts s c
  | .inQuotes => if c = '"' then { s with phase := .afterQuote } else s.push c .inQuotes
  | .afterQuote => if c = '"' then s.push c .inQuotes else stepField opts s c

/-- The end of the text, which ends a record, and a comment as an empty one. -/
def State.finish (s : State) : State :=
  match s.phase with
  | .between | .afterReturn => s
  | _ => s.endRecord .between

/-- The text without a byte order mark in front, and how many bytes that took. -/
def dropMark (cs : List Char) : List Char × Nat :=
  match cs with
  | '\uFEFF' :: rest => (rest, 3)
  | _ => (cs, 0)

/-- The records of a text. -/
def records (opts : CsvOptions) (text : String) : List Record :=
  let (cs, mark) := dropMark text.toList
  let start : State := ⟨.between, ⟨0, 1⟩, ⟨mark, 1⟩, [], [], []⟩
  (cs.foldl (step opts) start).finish.records.reverse

/-! ## Lengths -/

/-- A record with another number of fields than the first. -/
structure Error where
  /-- The number of the record, from zero. -/
  record : Nat
  /-- Where it begins. -/
  place : Place
  /-- How many fields it has. -/
  found : Nat
  /-- How many fields the first record has. -/
  expected : Nat
deriving DecidableEq

/-- The error in words. -/
def Error.message (e : Error) : String :=
  "CSV error: record " ++ toString e.record ++ " (line: " ++ toString e.place.line ++ ", byte: "
    ++ toString e.place.byte ++ "): found record with " ++ toString e.found
    ++ " fields, but the previous record has " ++ toString e.expected ++ " fields"

/-- Holds the records from number `i` on to a length. -/
def checkFrom (expected i : Nat) : List Record → Except Error Unit
  | [] => .ok ()
  | r :: rest =>
    if r.fields.length = expected then checkFrom expected (i + 1) rest
    else .error ⟨i, r.place, r.fields.length, expected⟩

/-- Holds all records to the length of the first. -/
def check : List Record → Except Error Unit
  | [] => .ok ()
  | first :: rest => checkFrom first.fields.length 1 rest

/-! ## Rows -/

/-- The fields of a record as an array. -/
def arrayRow (fields : List String) : Value := .array (fields.map .string)

/-- The key of the field at position `i`: its name in the header, or a name made of the
position. -/
def columnKey (header : List String) (i : Nat) : String :=
  match header[i]? with
  | some name => name
  | none => "col" ++ toString i

/-- The fields from position `i` on, written under their keys. -/
def rowFrom (header : List String) (i : Nat) (entries : Entries Value) :
    List String → Entries Value
  | [] => entries
  | field :: rest =>
    rowFrom header (i + 1) (entries.insert (columnKey header i) (.string field)) rest

/-- The fields of a record as an object. -/
def objectRow (header fields : List String) : Value := .object (rowFrom header 0 [] fields)

/-- The rows of records, the first naming the fields if `columns`. -/
def table (columns : Bool) (rows : List (List String)) : Value :=
  if !columns then .array (rows.map arrayRow)
  else match rows with
    | [] => .array []
    | header :: rest => .array (rest.map (objectRow header))

/-- The value that a delimited text is. -/
def read (opts : CsvOptions) (text : String) : Except Error Value := do
  let found := records opts text
  if !opts.relaxColumnCount then check found
  let rows := found.map (·.fields)
  let kept :=
    if opts.skipEmptyLines then rows.filter fun fields => !fields.all String.isEmpty else rows
  return table opts.columns kept

end PipeQuery.Csv
