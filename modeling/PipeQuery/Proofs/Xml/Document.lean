import PipeQuery.Proofs.Xml.Children

/-!
# Documents

A document is a list of nodes: elements with what is in them, and texts.  `Content.events` are
the events at which it is read.

Its value is said by recursion (`documentValue`).  An element with nothing but text is the value
of all its text; any other is an object of its attributes, its children under their names and its
text (`elementEntries`).  `value_eq_elementValue` says that an element has this value at its end
if it has its parts and no key comes twice among them.
-/

namespace PipeQuery.Xml

/-! ## Nodes -/

/-- What there is in a document. -/
inductive Node where
  /-- A text between tags. -/
  | text (s : String)
  /-- A section whose text is taken as it is. -/
  | cdata (s : String)
  /-- An element with its attributes and what is in it. -/
  | element (name : String) (attributes : List (String × String)) (content : List Node)

mutual

/-- The events at which a node is read. -/
def Node.events : Node → List Event
  | .text s | .cdata s => [.text s]
  | .element name attributes content =>
    .start name (.ok attributes) :: (Content.events content ++ [.stop])

/-- The events at which nodes are read, one after the other. -/
def Content.events : List Node → List Event
  | [] => []
  | node :: nodes => node.events ++ Content.events nodes

end

/-- The attributes that are kept, under their keys. -/
def keptAttributes (opts : XmlOptions) (attributes : List (String × String)) : Entries Value :=
  if opts.attributes then
    Entries.ofList (attributes.map fun (key, s) => (opts.attributePrefix ++ key, scalar opts s))
  else []

/-- The entries of an element: its attributes, its children under their names, and its text if
there is any. -/
def elementEntries (opts : XmlOptions) (attributes : Entries Value)
    (children : List (String × Value)) (text : String) : Entries Value :=
  attributes ++ byName children
    ++ if text.isEmpty then [] else [(opts.textNodeName, scalar opts text)]

/-- The value of an element: its text if it has no attributes and no children, else its
entries. -/
def elementValue (opts : XmlOptions) (attributes : Entries Value)
    (children : List (String × Value)) (text : String) : Value :=
  if attributes.isEmpty && children.isEmpty then scalar opts text
  else .object (elementEntries opts attributes children text)

/-- All texts among nodes, those inside elements left out. -/
def Content.text : List Node → String
  | [] => ""
  | .text s :: nodes | .cdata s :: nodes => s ++ Content.text nodes
  | .element _ _ _ :: nodes => Content.text nodes

mutual

/-- The value of a node under its name, if it is an element. -/
def Node.child? (opts : XmlOptions) : Node → Option (String × Value)
  | .text _ | .cdata _ => none
  | .element name attributes content =>
    some (name, elementValue opts (keptAttributes opts attributes)
      (Content.children opts content) (Content.text content))

/-- The values of the elements among nodes, each with its name. -/
def Content.children (opts : XmlOptions) : List Node → List (String × Value)
  | [] => []
  | node :: nodes => (node.child? opts).toList ++ Content.children opts nodes

end

/-- The value of a document: its outermost elements under their names. -/
def documentValue (opts : XmlOptions) (nodes : List Node) : Value :=
  .object (byName (Content.children opts nodes))

mutual

/-- In each element of the node the kept attributes, the children and the text have different
keys. -/
def Node.KeysApart (opts : XmlOptions) : Node → Prop
  | .text _ | .cdata _ => True
  | .element _ attributes content =>
    (Entries.keys (elementEntries opts (keptAttributes opts attributes)
      (Content.children opts content) (Content.text content))).Nodup
      ∧ Content.KeysApart opts content

/-- In each element inside the nodes the kept attributes, the children and the text have different
keys. -/
def Content.KeysApart (opts : XmlOptions) : List Node → Prop
  | [] => True
  | node :: nodes => node.KeysApart opts ∧ Content.KeysApart opts nodes

end

variable {opts : XmlOptions}

theorem Content.text_append (nodes others : List Node) :
    Content.text (nodes ++ others) = Content.text nodes ++ Content.text others := by
  induction nodes with
  | nil => simp [Content.text]
  | cons node nodes ih =>
    cases node with
    | text s | cdata s => simp [Content.text, ih, String.append_assoc]
    | element name attributes content => simpa [Content.text] using ih

theorem Content.children_append (nodes others : List Node) :
    Content.children opts (nodes ++ others)
      = Content.children opts nodes ++ Content.children opts others := by
  induction nodes with
  | nil => simp [Content.children]
  | cons node nodes ih => simp [Content.children, ih]

/-! ## Values of elements -/

theorem scalar_ne_array (s : String) : (scalar opts s).asArray? = none := by
  unfold scalar
  split
  · rfl
  · split
    · rfl
    · rfl
    · split
      · split <;> rfl
      · rfl

theorem elementValue_ne_array (attributes : Entries Value) (children : List (String × Value))
    (text : String) : (elementValue opts attributes children text).asArray? = none := by
  unfold elementValue
  split
  · exact scalar_ne_array text
  · rfl

/-- No child is an array, so several of one name are told from one. -/
theorem Content.children_ne_array (nodes : List Node) :
    ∀ child ∈ Content.children opts nodes, child.2.asArray? = none := by
  induction nodes with
  | nil => simp [Content.children]
  | cons node nodes ih =>
    rw [Content.children]
    refine List.forall_mem_append.2 ⟨?_, ih⟩
    cases node with
    | text s | cdata s => simp [Node.child?]
    | element name attributes content => simp [Node.child?, elementValue_ne_array]

/-- At its end an element has the value that is said by recursion. -/
theorem value_eq_elementValue {attributes : Entries Value} {children : List (String × Value)}
    {text : String} (name : String)
    (h : (Entries.keys (elementEntries opts attributes children text)).Nodup) :
    Element.value opts ⟨name, attributes, byName children, text⟩
      = elementValue opts attributes children text := by
  have hempty : (byName children).isEmpty = children.isEmpty := by
    rw [Bool.eq_iff_iff, List.isEmpty_iff, List.isEmpty_iff, byName_eq_nil_iff]
  rw [elementEntries, Entries.keys, List.map_append] at h
  obtain ⟨hentries, -, happart⟩ := List.nodup_append.1 h
  have hinsert : Entries.insertAll (byName children) attributes = attributes ++ byName children :=
    Entries.insertAll_of_nodup hentries
  simp only [Element.value, elementValue, elementEntries, hempty, hinsert]
  split
  · rfl
  · by_cases htext : text.isEmpty
    · simp [htext]
    · have hkey : opts.textNodeName ∉ Entries.keys (attributes ++ byName children) := by
        intro hmem
        exact happart _ hmem opts.textNodeName (by simp [htext]) rfl
      simp only [htext, Entries.insert_of_not_mem hkey]
      simp

end PipeQuery.Xml
