import PipeQuery.Entries
import PipeQuery.Format.Yaml.Token

/-!
# Nodes from tokens

A node is a scalar, a sequence, a mapping or a reference.  `documentOf?` makes the node of a
text from its tokens; a text has one document.

Anchors have numbers.  A node with an anchor takes as its number how many names have been
given before it, so that a name that is given again does not count twice.
-/

namespace PipeQuery.Yaml

/-- What a document is made of. -/
inductive Node where
  /-- A text, which is plain if it has neither quotes nor lines of its own. -/
  | scalar (anchor : Option Nat) (tag : Option (List Char)) (isPlain : Bool) (text : List Char)
  /-- Nodes in order. -/
  | sequence (anchor : Option Nat) (items : List Node)
  /-- Keys and values in order. -/
  | mapping (anchor : Option Nat) (members : List (Node × Node))
  /-- The node whose anchor has this number. -/
  | reference (number : Nat)

/-- What stands where nothing is written. -/
def Node.empty : Node := .scalar none none true []

/-! ## Tags -/

/-- The texts that handles stand for. -/
abbrev Handles := List (List Char × List Char)

/-- The handles that need no directive. -/
def commonHandles : Handles :=
  [(['!'], ['!']), (['!', '!'], "tag:yaml.org,2002:".toList)]

/-- The handles of a document with these directives.  There may be one version, and a handle
may be declared once. -/
def handles? (directives : List Directive) : Option Handles :=
  let versions := directives.filterMap fun
    | .version major minor => some (major, minor)
    | .handle .. => none
  let declared := directives.filterMap fun
    | .version .. => none
    | .handle name text => some (name, text)
  if versions.length ≤ 1 && versions.all (fun v => v = (1, 1) || v = (1, 2)) &&
      (declared.map Prod.fst).Nodup then
    some (declared ++ commonHandles)
  else none

/-- The whole text of a tag. -/
def Tag.text? (handles : Handles) (t : Tag) : Option (List Char) :=
  if t.handle.isEmpty then some t.suffix
  else (handles.lookup t.handle).map (· ++ t.suffix)

/-- Whether a tag belongs to the text at hand and not to the language. -/
def isLocalTag (tag : Option (List Char)) : Bool := tag.any (·.head? = some '!')

/-! ## Where nodes end -/

namespace Token

/-- Whether nothing stands before this token in an item. -/
def endsItem : Token → Bool
  | .item | .blockEnd => true
  | _ => false

/-- Whether nothing stands before this token in an item among the values of keys. -/
def endsInnerItem : Token → Bool
  | .item | .key | .value | .blockEnd => true
  | _ => false

/-- Whether nothing stands before this token in a key or value. -/
def endsMember : Token → Bool
  | .key | .value | .blockEnd => true
  | _ => false

/-- Whether nothing stands before this token in a value between brackets. -/
def endsFlowValue (b : Bracket) : Token → Bool
  | .comma => true
  | .closing .square => (b matches .square)
  | .closing .curly => (b matches .curly)
  | _ => false

/-- Whether nothing stands before this token in a key between brackets. -/
def endsFlowKey (b : Bracket) : Token → Bool
  | .value => true
  | t => t.endsFlowValue b

/-- Whether a node that is no reference begins with this token, apart from its anchor and tag. -/
def beginsBody (inBlock inMember : Bool) : Token → Bool
  | .scalar .. | .opening _ => true
  | .sequenceStart | .mappingStart => inBlock
  | .item => inMember
  | _ => false

end Token

/-! ## Nodes -/

/-- Tokens that are fewer than `ts`. -/
abbrev Fewer (ts : List Token) := { rest : List Token // rest.length < ts.length }

/-- Tokens that are not more than `ts`. -/
abbrev NotMore (ts : List Token) := { rest : List Token // rest.length ≤ ts.length }

/-- The anchor and the tag of a node. -/
structure Properties where
  /-- The number of the anchor. -/
  anchor : Option Nat
  /-- The tag. -/
  tag : Option (List Char)

/-- The numbers of the names that have been given, with one more. -/
def withAnchor (name : String) (anchors : Entries Nat) : Nat × Entries Nat :=
  (anchors.length, anchors.insert name anchors.length)

mutual

/-- A node and the tokens behind it.  `inBlock` says that it may be a block collection, and
`inMember` that it is a key or value of one, where items may stand without a beginning. -/
def nodeAt (handles : Handles) (inBlock inMember : Bool) (anchors : Entries Nat)
    (ts : List Token) : Option (Node × Entries Nat × Fewer ts) :=
  match ts with
  | .reference name :: rest =>
    (anchors.get? name).map fun number => (.reference number, anchors, ⟨rest, Nat.lt_succ_self _⟩)
  | .anchor name :: .tag t :: rest | .tag t :: .anchor name :: rest => do
    let (number, anchors) := withAnchor name anchors
    let tag ← t.text? handles
    let (node, anchors, ⟨r, h⟩) ←
      bodyAt handles inBlock inMember ⟨some number, some tag⟩ anchors rest
    return (node, anchors, ⟨r, by simp only [List.length_cons]; omega⟩)
  | .anchor name :: rest => do
    let (number, anchors) := withAnchor name anchors
    let (node, anchors, ⟨r, h⟩) ← bodyAt handles inBlock inMember ⟨some number, none⟩ anchors rest
    return (node, anchors, ⟨r, Nat.lt_succ_of_le h⟩)
  | .tag t :: rest => do
    let tag ← t.text? handles
    let (node, anchors, ⟨r, h⟩) ← bodyAt handles inBlock inMember ⟨none, some tag⟩ anchors rest
    return (node, anchors, ⟨r, Nat.lt_succ_of_le h⟩)
  | ts => contentAt handles inBlock inMember ⟨none, none⟩ anchors ts
termination_by 5 * ts.length + 3

/-- What stands behind an anchor or a tag, which may be nothing. -/
def bodyAt (handles : Handles) (inBlock inMember : Bool) (properties : Properties)
    (anchors : Entries Nat) (ts : List Token) : Option (Node × Entries Nat × NotMore ts) :=
  if ts.head?.any (·.beginsBody inBlock inMember) then do
    let (node, anchors, ⟨r, h⟩) ← contentAt handles inBlock inMember properties anchors ts
    return (node, anchors, ⟨r, Nat.le_of_lt h⟩)
  else some (.scalar properties.anchor properties.tag true [], anchors, ⟨ts, Nat.le_refl _⟩)
termination_by 5 * ts.length + 2

/-- A scalar or a collection with this anchor and tag.  A single exclamation mark says that a
scalar has no tag, and a collection may not have one of the text at hand. -/
def contentAt (handles : Handles) (inBlock inMember : Bool) (properties : Properties)
    (anchors : Entries Nat) (ts : List Token) : Option (Node × Entries Nat × Fewer ts) :=
  match ts with
  | .scalar isPlain text :: rest =>
    let tag := properties.tag.filter (· ≠ ['!'])
    some (.scalar properties.anchor tag isPlain text, anchors, ⟨rest, Nat.lt_succ_self _⟩)
  | t :: rest =>
    if isLocalTag properties.tag then none
    else match t with
    | .item => do
      if !inMember then none
      let (items, anchors, r) ← innerItemsAt handles anchors (t :: rest)
      return (.sequence properties.anchor items, anchors, r)
    | .sequenceStart => do
      if !inBlock then none
      let (items, anchors, ⟨r, h⟩) ← itemsAt handles anchors rest
      return (.sequence properties.anchor items, anchors, ⟨r, Nat.lt_succ_of_lt h⟩)
    | .mappingStart => do
      if !inBlock then none
      let (members, anchors, ⟨r, h⟩) ← membersAt handles anchors rest
      return (.mapping properties.anchor members, anchors, ⟨r, Nat.lt_succ_of_lt h⟩)
    | .opening .square => do
      let (items, anchors, ⟨r, h⟩) ← flowItemsAt handles true anchors rest
      return (.sequence properties.anchor items, anchors, ⟨r, Nat.lt_succ_of_lt h⟩)
    | .opening .curly => do
      let (members, anchors, ⟨r, h⟩) ← flowMembersAt handles true anchors rest
      return (.mapping properties.anchor members, anchors, ⟨r, Nat.lt_succ_of_lt h⟩)
    | _ => none
  | [] => none
termination_by 5 * ts.length + 1

/-- A node, or an empty one before a token at which `ends` holds. -/
def nodeBefore (handles : Handles) (ends : Token → Bool) (inBlock inMember : Bool)
    (anchors : Entries Nat) (ts : List Token) : Option (Node × Entries Nat × NotMore ts) :=
  if ts.head?.any ends then some (.empty, anchors, ⟨ts, Nat.le_refl _⟩)
  else do
    let (node, anchors, ⟨r, h⟩) ← nodeAt handles inBlock inMember anchors ts
    return (node, anchors, ⟨r, Nat.le_of_lt h⟩)
termination_by 5 * ts.length + 4

/-- A node behind the mark of a value, or an empty one where there is no such mark. -/
def valueBefore (handles : Handles) (ends : Token → Bool) (inBlock inMember : Bool)
    (anchors : Entries Nat) (ts : List Token) : Option (Node × Entries Nat × NotMore ts) :=
  match ts with
  | .value :: rest => do
    let (node, anchors, ⟨r, h⟩) ← nodeBefore handles ends inBlock inMember anchors rest
    return (node, anchors, ⟨r, Nat.le_succ_of_le h⟩)
  | ts => some (.empty, anchors, ⟨ts, Nat.le_refl _⟩)
termination_by 5 * ts.length

/-- The items up to the end of a block sequence. -/
def itemsAt (handles : Handles) (anchors : Entries Nat) (ts : List Token) :
    Option (List Node × Entries Nat × Fewer ts) :=
  match ts with
  | .blockEnd :: rest => some ([], anchors, ⟨rest, Nat.lt_succ_self _⟩)
  | .item :: rest => do
    let (node, anchors, ⟨r₁, h₁⟩) ← nodeBefore handles Token.endsItem true false anchors rest
    let (nodes, anchors, ⟨r₂, h₂⟩) ← itemsAt handles anchors r₁
    return (node :: nodes, anchors, ⟨r₂, by simp only [List.length_cons]; omega⟩)
  | _ => none
termination_by 5 * ts.length

/-- Items that stand without a beginning and an end, of which there is one at least. -/
def innerItemsAt (handles : Handles) (anchors : Entries Nat) (ts : List Token) :
    Option (List Node × Entries Nat × Fewer ts) :=
  match ts with
  | .item :: rest => do
    let (node, anchors, ⟨r₁, h₁⟩) ← nodeBefore handles Token.endsInnerItem true false anchors rest
    if r₁.head?.any (· matches .item) then
      let (nodes, anchors, ⟨r₂, h₂⟩) ← innerItemsAt handles anchors r₁
      return (node :: nodes, anchors, ⟨r₂, by simp only [List.length_cons]; omega⟩)
    else return ([node], anchors, ⟨r₁, Nat.lt_succ_of_le h₁⟩)
  | _ => none
termination_by 5 * ts.length

/-- The keys and values up to the end of a block mapping. -/
def membersAt (handles : Handles) (anchors : Entries Nat) (ts : List Token) :
    Option (List (Node × Node) × Entries Nat × Fewer ts) :=
  match ts with
  | .blockEnd :: rest => some ([], anchors, ⟨rest, Nat.lt_succ_self _⟩)
  | .key :: rest => do
    let (key, anchors, ⟨r₁, h₁⟩) ← nodeBefore handles Token.endsMember true true anchors rest
    let (value, anchors, ⟨r₂, h₂⟩) ← valueBefore handles Token.endsMember true true anchors r₁
    let (members, anchors, ⟨r₃, h₃⟩) ← membersAt handles anchors r₂
    return ((key, value) :: members, anchors, ⟨r₃, by simp only [List.length_cons]; omega⟩)
  | _ => none
termination_by 5 * ts.length

/-- The items up to the closing bracket.  An item may stand here if `mayStand`, else a comma
has to be before it. -/
def flowItemsAt (handles : Handles) (mayStand : Bool) (anchors : Entries Nat)
    (ts : List Token) : Option (List Node × Entries Nat × Fewer ts) :=
  match ts with
  | .closing .square :: rest => some ([], anchors, ⟨rest, Nat.lt_succ_self _⟩)
  | .comma :: rest => do
    if mayStand then none
    let (nodes, anchors, ⟨r, h⟩) ← flowItemsAt handles true anchors rest
    return (nodes, anchors, ⟨r, Nat.lt_succ_of_lt h⟩)
  | .key :: rest => do
    if !mayStand then none
    let (member, anchors, ⟨r₁, h₁⟩) ← pairAt handles anchors rest
    let (nodes, anchors, ⟨r₂, h₂⟩) ← flowItemsAt handles false anchors r₁
    return (.mapping none [member] :: nodes, anchors, ⟨r₂, by simp only [List.length_cons]; omega⟩)
  | ts => do
    if !mayStand then none
    let (node, anchors, ⟨r₁, h₁⟩) ← nodeAt handles false false anchors ts
    let (nodes, anchors, ⟨r₂, h₂⟩) ← flowItemsAt handles false anchors r₁
    return (node :: nodes, anchors, ⟨r₂, Nat.lt_trans h₂ h₁⟩)
termination_by 5 * ts.length + 4

/-- A key and a value that are an item, behind the mark of the key.  Where the key is empty the
token behind it is passed over. -/
def pairAt (handles : Handles) (anchors : Entries Nat) (ts : List Token) :
    Option ((Node × Node) × Entries Nat × NotMore ts) :=
  match ts with
  | [] => none
  | t :: rest => do
    if t.endsFlowKey .square then
      let (value, anchors, ⟨r, h⟩) ←
        valueBefore handles (Token.endsFlowValue .square) false false anchors rest
      return ((.empty, value), anchors, ⟨r, Nat.le_succ_of_le h⟩)
    else
      let (key, anchors, ⟨r₁, h₁⟩) ← nodeAt handles false false anchors (t :: rest)
      have : r₁.length < rest.length + 1 := h₁
      let (value, anchors, ⟨r₂, h₂⟩) ←
        valueBefore handles (Token.endsFlowValue .square) false false anchors r₁
      return ((key, value), anchors, ⟨r₂, by omega⟩)
termination_by 5 * ts.length + 4

/-- The keys and values up to the closing bracket.  A key may stand here if `mayStand`, else a
comma has to be before it. -/
def flowMembersAt (handles : Handles) (mayStand : Bool) (anchors : Entries Nat)
    (ts : List Token) : Option (List (Node × Node) × Entries Nat × Fewer ts) :=
  match ts with
  | .closing .curly :: rest => some ([], anchors, ⟨rest, Nat.lt_succ_self _⟩)
  | .comma :: rest => do
    if mayStand then none
    let (members, anchors, ⟨r, h⟩) ← flowMembersAt handles true anchors rest
    return (members, anchors, ⟨r, Nat.lt_succ_of_lt h⟩)
  | .key :: rest => do
    if !mayStand then none
    let (key, anchors, ⟨r₁, h₁⟩) ←
      nodeBefore handles (Token.endsFlowKey .curly) false false anchors rest
    let (value, anchors, ⟨r₂, h₂⟩) ←
      valueBefore handles (Token.endsFlowValue .curly) false false anchors r₁
    let (members, anchors, ⟨r₃, h₃⟩) ← flowMembersAt handles false anchors r₂
    return ((key, value) :: members, anchors, ⟨r₃, by simp only [List.length_cons]; omega⟩)
  | ts => do
    if !mayStand then none
    let (key, anchors, ⟨r₁, h₁⟩) ← nodeAt handles false false anchors ts
    let (members, anchors, ⟨r₂, h₂⟩) ← flowMembersAt handles false anchors r₁
    return ((key, .empty) :: members, anchors, ⟨r₂, Nat.lt_trans h₂ h₁⟩)
termination_by 5 * ts.length + 4

end

/-! ## Documents -/

/-- The directives in front. -/
def directivesAt : List Token → List Directive × List Token
  | .directive d :: rest =>
    let (directives, after) := directivesAt rest
    (d :: directives, after)
  | ts => ([], ts)

/-- Whether a document is over before this token. -/
def Token.endsDocument : Token → Bool
  | .directive _ | .documentStart | .documentEnd => true
  | _ => false

/-- The node of a text, which has nothing or one document.  A document with directives has a
beginning. -/
def documentOf? (ts : List Token) : Option Node :=
  if ts.isEmpty then some .empty
  else do
    let (directives, rest) := directivesAt ts
    let handles ← handles? directives
    let (node, after) ← match rest with
      | .documentStart :: rest =>
        if rest.head?.all Token.endsDocument then some (Node.empty, rest)
        else (nodeAt handles true false [] rest).map fun (node, _, r) => (node, r.1)
      | rest =>
        if directives.isEmpty then
          (nodeAt handles true false [] rest).map fun (node, _, r) => (node, r.1)
        else none
    if (after.dropWhile (· matches .documentEnd)).isEmpty then return node else none

end PipeQuery.Yaml
