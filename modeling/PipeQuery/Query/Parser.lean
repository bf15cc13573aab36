import PipeQuery.Query.Error
import PipeQuery.Query.Lexer
import PipeQuery.Query.Stage

/-!
# Queries from tokens

A query is a list of stages with pipes between them; a comment needs no pipe
behind it.  Each parsing function takes the tokens ahead and gives what it read
with the tokens behind it, which are fewer; the type `Parsed` says so, and every
loop ends by it.

A token is taken only if the one behind it is a token as well or the text ends
there, so that an error in the text is reported before any error in what stands
in front of it.
-/

namespace PipeQuery.Query

/-- Tokens that are fewer than `s`. -/
abbrev Behind (s : Tokens) := { t : Tokens // t.size < s.size }

/-- What is read from tokens, and the tokens behind it. -/
abbrev Parsed (s : Tokens) (α : Type) := α × Behind s

namespace Tokens

/-- The tokens, if there is no error at their head. -/
def ready (s : Tokens) : Except ParseError Unit :=
  match s with
  | .failed e => .error (.lex e)
  | _ => .ok ()

/-- The first token. -/
def head? : Tokens → Option Token
  | .token _ t _ => some t
  | _ => none

/-- Whether the text ends here. -/
def isFinished : Tokens → Bool
  | .finished _ => true
  | _ => false

/-- Where the first token begins, or where the text ends. -/
def position : Tokens → Position
  | .finished p => p
  | .failed _ => .start
  | .token p _ _ => p

/-- The error that something else was expected than the first token. -/
def unexpected (s : Tokens) (expected : Expected) : ParseError :=
  .unexpected expected s.head? s.position

/-- Takes the first token if `read` finds something in it. -/
def accept {α : Type} (s : Tokens) (expected : Expected) (read : Token → Option α) :
    Except ParseError (Parsed s α) :=
  match s with
  | .token p t rest =>
    match read t with
    | some a => do
      rest.ready
      return (a, ⟨rest, by simp [size]⟩)
    | none => .error (.unexpected expected (some t) p)
  | .finished p => .error (.unexpected expected none p)
  | .failed e => .error (.lex e)

/-- Whether the first token is this one. -/
def startsWith (s : Tokens) (t : Token) : Bool := s.head? == some t

/-- Takes the first token, which has to be this one. -/
def expect (s : Tokens) (expected : Expected) (t : Token) : Except ParseError (Parsed s Unit) :=
  s.accept expected fun found => if found = t then some () else none

/-- A text in quotes of either kind. -/
def text (s : Tokens) (expected : Expected) : Except ParseError (Parsed s String) :=
  s.accept expected fun
    | .field x | .string x => some x
    | _ => none

/-- The value of a literal token. -/
def literalValue? : Token → Option Value
  | .field x | .string x => some (.string x)
  | .number n => some (.number n)
  | .boolean b => some (.boolean b)
  | .null => some .null
  | _ => none

/-- A literal. -/
def literal (s : Tokens) : Except ParseError (Parsed s Value) := s.accept .literal literalValue?

/-- Items with commas between them, at least one. -/
def commaSeparated {α : Type} (item : (s : Tokens) → Except ParseError (Parsed s α))
    (s : Tokens) : Except ParseError (Parsed s (List α)) := do
  let (a, ⟨s₁, h₁⟩) ← item s
  if s₁.startsWith .comma then
    let ((), ⟨s₂, h₂⟩) ← s₁.expect .pipeOrEnd .comma
    let (as, ⟨s₃, h₃⟩) ← commaSeparated item s₂
    return (a :: as, ⟨s₃, by omega⟩)
  else return ([a], ⟨s₁, h₁⟩)
termination_by s.size

end Tokens

open Tokens

/-! ## Calls -/

/-- The argument that a token is. -/
def argument? : Token → Option Argument
  | .field path => some (.field path)
  | .string text => some (.string text)
  | .number n => some (.number n)
  | _ => none

/-- Arguments up to a closing parenthesis, which may follow a comma. -/
def arguments (s : Tokens) : Except ParseError (Parsed s (List Argument)) := do
  if s.startsWith .closeParen then
    let ((), t) ← s.expect .closeParen .closeParen
    return ([], t)
  else
    let (a, ⟨s₁, h₁⟩) ← s.accept .functionArgument argument?
    if s₁.startsWith .closeParen then
      let ((), ⟨s₂, h₂⟩) ← s₁.expect .closeParen .closeParen
      return ([a], ⟨s₂, by omega⟩)
    else
      let ((), ⟨s₂, h₂⟩) ← s₁.expect .commaOrCloseParen .comma
      let (as, ⟨s₃, h₃⟩) ← arguments s₂
      return (a :: as, ⟨s₃, by omega⟩)
termination_by s.size

/-- The name that a token is. -/
def identifier? : Token → Option String
  | .identifier name => some name
  | _ => none

/-- A call of an operator with as many arguments as it takes. -/
def call (s : Tokens) : Except ParseError (Parsed s Call) :=
  match s.head? with
  | some (.identifier name) =>
    match Operator.ofName? name with
    | none => .error (.unknownFunction name s.position)
    | some op => do
      let (_, ⟨s₁, h₁⟩) ← s.accept .functionName identifier?
      let ((), ⟨s₂, h₂⟩) ← s₁.expect .openParen .openParen
      let (args, ⟨s₃, h₃⟩) ← arguments s₂
      if op.arity.allows args.length then return (⟨op, args⟩, ⟨s₃, by omega⟩)
      else .error (.arity op args.length s.position)
  | _ => .error (s.unexpected .functionName)

/-! ## The parts of stages -/

/-- A field with a direction, which is rising if none is given. -/
def orderField (s : Tokens) : Except ParseError (Parsed s OrderField) := do
  let (field, ⟨s₁, h₁⟩) ← s.text .field
  if s₁.startsWith (.identifier "asc") then
    let ((), ⟨s₂, h₂⟩) ← s₁.expect (.keyword "asc") (.identifier "asc")
    return (⟨field, .asc⟩, ⟨s₂, by omega⟩)
  else if s₁.startsWith (.identifier "desc") then
    let ((), ⟨s₂, h₂⟩) ← s₁.expect (.keyword "desc") (.identifier "desc")
    return (⟨field, .desc⟩, ⟨s₂, by omega⟩)
  else return (⟨field, .asc⟩, ⟨s₁, h₁⟩)

/-- Whether a token is a name. -/
def isIdentifier (t : Option Token) : Bool := (t.bind identifier?).isSome

/-- The field that a token is. -/
def field? : Token → Option String
  | .field path => some path
  | _ => none

/-- What an item computes, with the name that is put before it. -/
def itemSource (s : Tokens) : Except ParseError (Parsed s Item) :=
  match s.head? with
  | some (.field _) => do
    let (first, ⟨s₁, h₁⟩) ← s.accept .fieldOrCall field?
    if s₁.startsWith .equals then
      let ((), ⟨s₂, h₂⟩) ← s₁.expect .equals .equals
      if isIdentifier s₂.head? then
        let (c, ⟨s₃, h₃⟩) ← call s₂
        return (⟨.call c, some first⟩, ⟨s₃, by omega⟩)
      else
        let (path, ⟨s₃, h₃⟩) ← s₂.text .fieldOrCall
        return (⟨.field path, some first⟩, ⟨s₃, by omega⟩)
    else return (⟨.field first, none⟩, ⟨s₁, h₁⟩)
  | some (.identifier _) => do
    let (c, t) ← call s
    return (⟨.call c, none⟩, t)
  | _ => .error (s.unexpected .fieldOrCall)

/-- An item, whose name may also follow it. -/
def item (s : Tokens) : Except ParseError (Parsed s Item) := do
  let (i, ⟨s₁, h₁⟩) ← itemSource s
  if s₁.startsWith (.identifier "as") then
    let ((), ⟨s₂, h₂⟩) ← s₁.expect (.keyword "as") (.identifier "as")
    let (name, ⟨s₃, h₃⟩) ← s₂.text .label
    return ({ i with label := some name }, ⟨s₃, by omega⟩)
  else return (i, ⟨s₁, h₁⟩)

/-- A call with a name before it, if any. -/
def metric (s : Tokens) : Except ParseError (Parsed s Metric) :=
  match s.head? with
  | some (.field _) => do
    let (name, ⟨s₁, h₁⟩) ← s.accept .fieldOrCall field?
    let ((), ⟨s₂, h₂⟩) ← s₁.expect .equals .equals
    let (c, ⟨s₃, h₃⟩) ← call s₂
    return (⟨c, some name⟩, ⟨s₃, by omega⟩)
  | _ => do
    let (c, t) ← call s
    return (⟨c, none⟩, t)

/-- An option of a stage as it is written. -/
structure StageOption where
  /-- The name after the dashes. -/
  name : String
  /-- The value, true if none is given. -/
  value : Value
  /-- Where the option begins. -/
  position : Position

/-- Tokens that are not more than `s`. -/
abbrev Ahead (s : Tokens) := { t : Tokens // t.size ≤ s.size }

/-- The flag that a token is. -/
def flag? : Token → Option String
  | .flag name => some name
  | _ => none

/-- The options ahead. -/
def options (s : Tokens) : Except ParseError (List StageOption × Ahead s) :=
  match s.head? with
  | some (.flag _) => do
    let (name, ⟨s₁, h₁⟩) ← s.accept .command flag?
    if s₁.startsWith .equals then
      let ((), ⟨s₂, h₂⟩) ← s₁.expect .equals .equals
      let (value, ⟨s₃, h₃⟩) ← s₂.literal
      let (others, ⟨s₄, h₄⟩) ← options s₃
      return (⟨name, value, s.position⟩ :: others, ⟨s₄, by omega⟩)
    else
      let (others, ⟨s₂, h₂⟩) ← options s₁
      return (⟨name, .boolean true, s.position⟩ :: others, ⟨s₂, by omega⟩)
  | _ => .ok ([], ⟨s, Nat.le_refl _⟩)
termination_by s.size

namespace StageOption

/-- The truth value of an option. -/
def truthValue (o : StageOption) : Except ParseError Bool :=
  match o.value with
  | .boolean b => .ok b
  | _ => .error (.invalidOption o.name .truthValue o.position)

/-- The text of an option. -/
def text (o : StageOption) : Except ParseError String :=
  match o.value with
  | .string s => .ok s
  | _ => .error (.invalidOption o.name .string o.position)

/-- The single ASCII character of an option. -/
def character (o : StageOption) : Except ParseError Char :=
  match o.value with
  | .string s =>
    match s.toList with
    | [c] => if c.toNat < 0x80 then .ok c else .error (.invalidOption o.name .character o.position)
    | _ => .error (.invalidOption o.name .character o.position)
  | _ => .error (.invalidOption o.name .character o.position)

end StageOption

/-- The options of delimited text with one option applied. -/
def CsvOptions.apply (opts : CsvOptions) (o : StageOption) : Except ParseError CsvOptions :=
  match o.name with
  | "delimiter" => return { opts with delimiter := ← o.character }
  | "comment" => return { opts with comment := some (← o.character) }
  | "columns" => return { opts with columns := ← o.truthValue }
  | "skip_empty_lines" => return { opts with skipEmptyLines := ← o.truthValue }
  | "relax_column_count" => return { opts with relaxColumnCount := ← o.truthValue }
  | _ => .error (.unknownOption "parse-csv" o.name o.position)

/-- The options of markup with one option applied. -/
def XmlOptions.apply (opts : XmlOptions) (o : StageOption) : Except ParseError XmlOptions :=
  match o.name with
  | "attributes" => return { opts with attributes := ← o.truthValue }
  | "parse_values" => return { opts with parseValues := ← o.truthValue }
  | "attribute_prefix" => return { opts with attributePrefix := ← o.text }
  | "text_node_name" => return { opts with textNodeName := ← o.text }
  | _ => .error (.unknownOption "parse-xml" o.name o.position)

/-! ## Stages -/

/-- A number without a fraction and not below zero, cut off at the greatest index. -/
def wholeNumber? : Token → Option Nat
  | .number n =>
    if (n.isWhole && !n.less .zero) then some (n.toNatUpTo (2 ^ 64 - 1)) else none
  | _ => none

/-- The stage that follows the name of a command; `start` is where the name begins. -/
def stageNamed (name : String) (start : Position) (s : Tokens) :
    Except ParseError (Stage × Ahead s) :=
  let done (stage : Stage) : Except ParseError (Stage × Ahead s) :=
    .ok (stage, ⟨s, Nat.le_refl _⟩)
  let after {α : Type} (x : Except ParseError (Parsed s α)) (stage : α → Stage) :
      Except ParseError (Stage × Ahead s) :=
    x.map fun (a, t) => (stage a, ⟨t.1, Nat.le_of_lt t.2⟩)
  match name with
  | "hello" => done .hello
  | "ping" =>
    if (s.head?.bind literalValue?).isSome then after s.literal .ping
    else done (.ping (.string "pong"))
  | "echo" => after s.literal .echo
  | "scope" => after (s.text .fieldPath) .scope
  | "jsonata" => after (s.text .expression) .expression
  | "distinct" =>
    match s.head? with
    | some (.field _) | some (.string _) => after (s.text .field) (.distinct ∘ some)
    | _ => done (.distinct none)
  | "count" => done .count
  | "limit" => after (s.accept .wholeNumber wholeNumber?) .limit
  | "mv-expand" => do
    let (first, ⟨s₁, h₁⟩) ← s.text .field
    if s₁.startsWith .equals then
      let ((), ⟨s₂, h₂⟩) ← s₁.expect .equals .equals
      let (field, ⟨s₃, h₃⟩) ← s₂.text .field
      return (.expand field (some first), ⟨s₃, by omega⟩)
    else return (.expand first none, ⟨s₁, by omega⟩)
  | "order" => do
    let ((), ⟨s₁, h₁⟩) ← s.expect (.keyword "by") (.identifier "by")
    let (fields, ⟨s₂, h₂⟩) ← commaSeparated orderField s₁
    return (.orderBy fields, ⟨s₂, by omega⟩)
  | "extend" => after (commaSeparated item s) .extend
  | "project" => after (commaSeparated item s) .project
  | "project-away" => after (commaSeparated (·.text .field) s) .projectAway
  | "summarize" => do
    let (metrics, ⟨s₁, h₁⟩) ← commaSeparated metric s
    if s₁.startsWith (.identifier "by") then
      let ((), ⟨s₂, h₂⟩) ← s₁.expect (.keyword "by") (.identifier "by")
      let (fields, ⟨s₃, h₃⟩) ← commaSeparated (·.text .groupField) s₂
      return (.summarize fields metrics, ⟨s₃, by omega⟩)
    else return (.summarize [] metrics, ⟨s₁, by omega⟩)
  | "parse-json" => done .parseJson
  | "parse-yaml" => done .parseYaml
  | "parse-csv" => do
    let (opts, t) ← options s
    return (.parseCsv (← opts.foldlM CsvOptions.apply {}), t)
  | "parse-xml" => do
    let (opts, t) ← options s
    return (.parseXml (← opts.foldlM XmlOptions.apply {}), t)
  | _ =>
    match Operator.ofName? name with
    | some op => done (.command op)
    | none => .error (.unknownCommand name start)

/-- A stage. -/
def stage (s : Tokens) : Except ParseError (Parsed s Stage) :=
  match s.head? with
  | some (.comment _) =>
    s.accept .command fun
      | .comment text => some (.comment text)
      | _ => none
  | some (.identifier _) => do
    let (name, ⟨s₁, h₁⟩) ← s.accept .command identifier?
    let (st, ⟨s₂, h₂⟩) ← stageNamed name s.position s₁
    return (st, ⟨s₂, by omega⟩)
  | _ => .error (s.unexpected .command)

/-- Whether a stage is a comment. -/
def Stage.isComment : Stage → Bool
  | .comment _ => true
  | _ => false

/-- Stages up to the end of the text. -/
def stages (s : Tokens) : Except ParseError (List Stage) := do
  if s.isFinished then return []
  else
    let (st, ⟨s₁, _⟩) ← stage s
    match s₁.head? with
    | none => return [st]
    | some .pipe =>
      let ((), ⟨s₂, _⟩) ← s₁.expect .pipeOrEnd .pipe
      if s₂.isFinished then .error (s₂.unexpected .commandAfterPipe)
      else return st :: (← stages s₂)
    | some _ =>
      if st.isComment then return st :: (← stages s₁)
      else .error (s₁.unexpected .pipeOrEnd)
termination_by s.size

/-- The stages of a query text. -/
def parse (text : String) : Except ParseError (List Stage) := do
  let tokens := lex text
  tokens.ready
  match ← stages tokens with
  | [] => .error .empty
  | found => return found

end PipeQuery.Query
