import PipeQuery.Format.Yaml.Node
import PipeQuery.Format.Yaml.Plain

/-!
# Reading YAML

`read` reads a text as one value.  Keys are the texts of scalars, whatever these would spell
as values; a key that comes again keeps its first place and takes the last value.

A reference stands for the last node whose anchor has its number, also within that node.  What
nests deeper than `maxDepth` is refused, and a text in which references are followed more than
`followLimit` times for each of its events is refused.  So every reading ends.
-/

namespace PipeQuery.Yaml

/-- How deep collections may nest. -/
def maxDepth : Nat := 128

/-- How often references may be followed for each event. -/
def followLimit : Nat := 100

/-! ## What is in a node -/

namespace Node

mutual

/-- The nodes with an anchor in the order in which they begin, with their numbers. -/
def anchored : Node → List (Nat × Node)
  | .scalar anchor tag isPlain text =>
    anchor.toList.map fun number => (number, .scalar anchor tag isPlain text)
  | .sequence anchor items =>
    (anchor.toList.map fun number => (number, .sequence anchor items)) ++ anchoredItems items
  | .mapping anchor members =>
    (anchor.toList.map fun number => (number, .mapping anchor members)) ++
      anchoredMembers members
  | .reference _ => []

/-- The nodes with an anchor in items. -/
def anchoredItems : List Node → List (Nat × Node)
  | [] => []
  | item :: items => item.anchored ++ anchoredItems items

/-- The nodes with an anchor in keys and values. -/
def anchoredMembers : List (Node × Node) → List (Nat × Node)
  | [] => []
  | (key, value) :: members => key.anchored ++ (value.anchored ++ anchoredMembers members)

end

mutual

/-- How many events a node is: a collection has one for its beginning and one for its end. -/
def eventCount : Node → Nat
  | .scalar .. | .reference _ => 1
  | .sequence _ items => eventCountItems items + 2
  | .mapping _ members => eventCountMembers members + 2

/-- How many events items are. -/
def eventCountItems : List Node → Nat
  | [] => 0
  | item :: items => item.eventCount + eventCountItems items

/-- How many events keys and values are. -/
def eventCountMembers : List (Node × Node) → Nat
  | [] => 0
  | (key, value) :: members => key.eventCount + value.eventCount + eventCountMembers members

end

/-- The node whose anchor has a number, the last one if there are more. -/
def withNumber? (number : Nat) (root : Node) : Option Node :=
  root.anchored.reverse.lookup number

end Node

/-! ## Values -/

/-- A reading that may be refused, with how many references may still be followed. -/
abbrev Reading (α : Type) := StateT Nat Option α

/-- The node that a node of `root` stands for. -/
def followed (root : Node) (node : Node) : Reading Node :=
  match node with
  | .reference number => do
    let left ← get
    if left = 0 then failure
    set (left - 1)
    root.withNumber? number
  | node => return node

/-- What stands for a tag of the language before its kind. -/
def languageTag : List Char := "tag:yaml.org,2002:".toList

/-- The value of a scalar.  A tag of the text at hand is refused, one that is not of the
language says nothing, and a text that is not plain stands for itself. -/
def scalarValue? (tag : Option (List Char)) (isPlain : Bool) (text : List Char) : Option Value :=
  match tag with
  | some tag =>
    if isLocalTag (some tag) then none
    else if languageTag.isPrefixOf tag then
      taggedValue? (String.ofList (tag.drop languageTag.length)) text
    else some (.string (String.ofList text))
  | none => if isPlain then plainValue? text else some (.string (String.ofList text))

/-- The text of a key. -/
def keyText (root : Node) (key : Node) : Reading String := do
  match ← followed root key with
  | .scalar _ _ _ text => return String.ofList text
  | _ => failure

/-- The value of a node of `root` in which collections nest `depth` deep at most. -/
def valueWithin (root : Node) (depth : Nat) (node : Node) : Reading Value := do
  match depth, ← followed root node with
  | _, .scalar _ tag isPlain text => scalarValue? tag isPlain text
  | depth + 1, .sequence _ items => return .array (← items.mapM (valueWithin root depth))
  | depth + 1, .mapping _ members =>
    let pairs ← members.mapM fun (key, value) => do
      return (← keyText root key, ← valueWithin root depth value)
    return .object (Entries.ofList pairs)
  | _, _ => failure
termination_by structural depth

/-- The value of a text, or nothing if it is refused. -/
def read (text : String) : Option Value := do
  let root ← documentOf? (← tokens? (← spots? text))
  let (value, _) ← (valueWithin root maxDepth root).run (followLimit * root.eventCount)
  return value

end PipeQuery.Yaml
