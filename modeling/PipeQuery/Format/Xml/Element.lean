import PipeQuery.Format.Options
import PipeQuery.Format.Xml.Event
import PipeQuery.Value.Basic

/-!
# Values of elements

An element becomes an entry under its name.  One with text only is that text, as
a number or a truth value if it spells one.  Any other is an object of its
attributes, its child elements and its text.  Elements of one name inside one
element are collected in an array.

`build` takes events one by one and keeps the elements that have begun.
-/

namespace PipeQuery.Xml

/-- Whether a text looks like a number: digits, signs, points and exponents, one digit at
least. -/
def looksNumeric (cs : List Char) : Bool :=
  cs.any Char.isDigit
    && cs.all fun c => c.isDigit || c = '.' || c = '-' || c = '+' || c = 'e' || c = 'E'

/-- The value of a text. -/
def scalar (opts : XmlOptions) (s : String) : Value :=
  if !opts.parseValues then .string s
  else match s with
    | "true" => .boolean true
    | "false" => .boolean false
    | s =>
      if looksNumeric s.toList then
        match Number.read? s.toList with
        | some n => .number n
        | none => .string s
      else .string s

/-- An element that has begun. -/
structure Element where
  /-- Its name. -/
  name : String
  /-- Its attributes under their keys. -/
  attributes : Entries Value
  /-- Its child elements under their names. -/
  children : Entries Value
  /-- Its text. -/
  text : String

/-- A child more under its name; children of one name are collected in an array. -/
def attach (children : Entries Value) (name : String) (v : Value) : Entries Value :=
  match children.get? name with
  | some (.array items) => children.insert name (.array (items ++ [v]))
  | some first => children.insert name (.array [first, v])
  | none => children.insert name v

namespace Element

/-- An element at its beginning; attributes count only if they are kept. -/
def begin (opts : XmlOptions) (name : String) (attributes : Except Error (List (String × String))) :
    Except Error Element := do
  if !opts.attributes then return ⟨name, [], [], ""⟩
  else
    let kept := (← attributes).map fun (key, s) => (opts.attributePrefix ++ key, scalar opts s)
    return ⟨name, Entries.ofList kept, [], ""⟩

/-- The value of an element at its end. -/
def value (opts : XmlOptions) (e : Element) : Value :=
  if e.attributes.isEmpty && e.children.isEmpty then scalar opts e.text
  else
    let entries := Entries.insertAll e.children e.attributes
    if e.text.isEmpty then .object entries
    else .object (entries.insert opts.textNodeName (scalar opts e.text))

end Element

/-- The element put where it belongs: into the last element that has begun, or among the roots
of the document. -/
def place (e : Element) (v : Value) (roots : Entries Value) (begun : List Element) :
    Entries Value × List Element :=
  match begun with
  | [] => (attach roots e.name v, [])
  | outer :: others => (roots, { outer with children := attach outer.children e.name v } :: others)

/-- The text put into the last element that has begun; outside of elements it is dropped. -/
def placeText (s : String) : List Element → List Element
  | [] => []
  | e :: others => { e with text := e.text ++ s } :: others

/-- The value of events; `roots` are the elements that ended outside of others, `begun` those
that have not ended, the last one first. -/
def build (opts : XmlOptions) (roots : Entries Value) (begun : List Element) :
    Events → Except Error Value
  | .finished =>
    match begun with
    | [] => .ok (.object roots)
    | e :: _ => .error (.unclosedElement e.name)
  | .failed e => .error e
  | .event (.start name attributes) rest => do
    build opts roots ((← Element.begin opts name attributes) :: begun) rest
  | .event (.empty name attributes) rest => do
    let e ← Element.begin opts name attributes
    let (roots, begun) := place e (e.value opts) roots begun
    build opts roots begun rest
  | .event .stop rest =>
    match begun with
    | [] => .error .unexpectedEnd
    | e :: begun =>
      let (roots, begun) := place e (e.value opts) roots begun
      build opts roots begun rest
  | .event (.text s) rest => build opts roots (placeText s begun) rest

/-- The value that a text of markup is. -/
def read (opts : XmlOptions) (text : String) : Except Error Value :=
  build opts [] [] (events text)

end PipeQuery.Xml
