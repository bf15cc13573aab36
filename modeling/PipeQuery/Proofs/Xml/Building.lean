import PipeQuery.Proofs.Xml.Document

/-!
# Values from events

`build` has no tree, only events one by one and the elements that have begun.  A `Cursor` is a
place in a document, and at each place the elements that have begun are what the recursion makes
of the parts of their content before it (`Opened.element`).  A text and the end of an element put
a node to the innermost of these parts (`build_text`, `build_stop`), and so all events of a list
of nodes lead behind the nodes (`build_content`).

Which elements have begun at the end of any events is said by their names (`openAfter`).  If there
are any, the events have no value (`exists_error_of_openAfter_ne`).

`build_eq_documentValue` puts both together.  There an element without content may also begin and
end in one event, which `Event.split` takes apart.
-/

namespace PipeQuery.Xml

variable {opts : XmlOptions}

/-! ## Places in a document -/

/-- An element that has begun, with the part of its content before a place. -/
structure Opened where
  /-- Its name. -/
  name : String
  /-- Its attributes. -/
  attributes : List (String × String)
  /-- What of its content is before the place. -/
  content : List Node

/-- A place in a document. -/
structure Cursor where
  /-- What is before it outside of the elements that have not ended. -/
  before : List Node
  /-- The elements that have not ended, the last one first. -/
  opened : List Opened

/-- The element as the events before the place make it. -/
def Opened.element (opts : XmlOptions) (o : Opened) : Element where
  name := o.name
  attributes := keptAttributes opts o.attributes
  children := byName (Content.children opts o.content)
  text := Content.text o.content

namespace Cursor

/-- The outermost elements that have ended. -/
def roots (opts : XmlOptions) (c : Cursor) : Entries Value :=
  byName (Content.children opts c.before)

/-- The elements that have begun, the last one first. -/
def begun (opts : XmlOptions) (c : Cursor) : List Element := c.opened.map (Opened.element opts)

/-- The value that the events behind a place lead to. -/
def build (opts : XmlOptions) (c : Cursor) (es : List Event) : Except Error Value :=
  Xml.build opts (c.roots opts) (c.begun opts) (Events.ofList es)

/-- The place behind nodes that are here. -/
def behind (nodes : List Node) : Cursor → Cursor
  | ⟨before, []⟩ => ⟨before ++ nodes, []⟩
  | ⟨before, o :: outer⟩ => ⟨before, { o with content := o.content ++ nodes } :: outer⟩

/-- The place at the beginning of the content of an element that is here. -/
def inside (name : String) (attributes : List (String × String)) (c : Cursor) : Cursor :=
  ⟨c.before, ⟨name, attributes, []⟩ :: c.opened⟩

theorem behind_nil (c : Cursor) : c.behind [] = c := by
  obtain ⟨before, opened⟩ := c
  cases opened <;> simp [behind]

theorem behind_behind (nodes others : List Node) (c : Cursor) :
    (c.behind nodes).behind others = c.behind (nodes ++ others) := by
  obtain ⟨before, opened⟩ := c
  cases opened <;> simp [behind]

variable {name : String} {attributes : List (String × String)} {content : List Node} {node : Node}

/-! ## One event -/

/-- A text is put to the content before the place. -/
theorem build_text (hchild : node.child? opts = none) (c : Cursor) (rest : List Event) :
    c.build opts (.text (Content.text [node]) :: rest) = (c.behind [node]).build opts rest := by
  obtain ⟨before, opened⟩ := c
  rw [build, build, Events.ofList, Xml.build]
  cases opened with
  | nil =>
    have hroots : (behind [node] ⟨before, []⟩).roots opts = roots opts ⟨before, []⟩ := by
      simp [behind, roots, Content.children_append, Content.children, hchild]
    rw [hroots]
    rfl
  | cons o outer =>
    have hbegun : placeText (Content.text [node]) (begun opts ⟨before, o :: outer⟩)
        = (behind [node] ⟨before, o :: outer⟩).begun opts := by
      simp [begun, behind, placeText, Opened.element, Content.text_append,
        Content.children_append, Content.children, hchild]
    rw [hbegun]
    rfl

/-- Nothing of the content of an element is before the place at its beginning. -/
theorem build_start (name : String) (attributes : List (String × String)) (c : Cursor)
    (rest : List Event) :
    c.build opts (.start name (.ok attributes) :: rest)
      = (c.inside name attributes).build opts rest := by
  have hbegin : Element.begin opts name (.ok attributes)
      = .ok (Opened.element opts ⟨name, attributes, []⟩) := by
    simp only [Element.begin, Opened.element, keptAttributes, Content.children, Content.text]
    cases opts.attributes <;> rfl
  rw [build, Events.ofList, Xml.build, hbegin]
  rfl

/-- An element that ends is put to the children before the place. -/
theorem place_begun {e : Element} {v : Value} (hchild : node.child? opts = some (e.name, v))
    (htext : Content.text [node] = "") (c : Cursor) :
    place e v (c.roots opts) (c.begun opts)
      = ((c.behind [node]).roots opts, (c.behind [node]).begun opts) := by
  have hattach : ∀ nodes, attach (byName (Content.children opts nodes)) e.name v
      = byName (Content.children opts (nodes ++ [node])) := by
    intro nodes
    rw [← byName_append (Content.children_ne_array nodes), Content.children_append]
    simp [Content.children, hchild]
  obtain ⟨before, opened⟩ := c
  cases opened with
  | nil =>
    rw [roots, begun, List.map_nil, place, hattach]
    rfl
  | cons o outer =>
    rw [roots, begun, List.map_cons, place, Opened.element, hattach]
    simp [roots, begun, behind, Opened.element, Content.text_append, htext]

/-- All of the content of an element is before the place at its end. -/
theorem build_stop (h : (Node.element name attributes content).KeysApart opts) (c : Cursor)
    (rest : List Event) :
    ((c.inside name attributes).behind content).build opts (.stop :: rest)
      = (c.behind [.element name attributes content]).build opts rest := by
  rw [Node.KeysApart] at h
  have hchild : (Node.element name attributes content).child? opts
      = some (name, Element.value opts (Opened.element opts ⟨name, attributes, content⟩)) := by
    rw [Node.child?, ← value_eq_elementValue name h.1]
    rfl
  have htext : Content.text [.element name attributes content] = "" := by simp [Content.text]
  show Xml.build opts (c.roots opts)
    (Opened.element opts ⟨name, attributes, content⟩ :: c.begun opts)
    (.event .stop (Events.ofList rest)) = _
  rw [Xml.build, place_begun hchild htext c]
  rfl

/-! ## All events -/

mutual

/-- The events of a node lead behind it. -/
theorem build_node : ∀ (node : Node), node.KeysApart opts → ∀ (c : Cursor) (rest : List Event),
    c.build opts (node.events ++ rest) = (c.behind [node]).build opts rest
  | .text s, _, c, rest => by
    have hchild : (Node.text s).child? opts = none := by rw [Node.child?]
    rw [← build_text hchild]
    simp [Node.events, Content.text]
  | .cdata s, _, c, rest => by
    have hchild : (Node.cdata s).child? opts = none := by rw [Node.child?]
    rw [← build_text hchild]
    simp [Node.events, Content.text]
  | .element name attributes content, h, c, rest => by
    have hkeys : Content.KeysApart opts content := by
      rw [Node.KeysApart] at h
      exact h.2
    rw [Node.events, List.cons_append, List.append_assoc, build_start, List.singleton_append,
      build_content content hkeys, build_stop h]

/-- The events of nodes lead behind the last of them. -/
theorem build_content : ∀ (nodes : List Node), Content.KeysApart opts nodes →
    ∀ (c : Cursor) (rest : List Event),
      c.build opts (Content.events nodes ++ rest) = (c.behind nodes).build opts rest
  | [], _, c, rest => by rw [Content.events, List.nil_append, behind_nil]
  | node :: nodes, h, c, rest => by
    rw [Content.KeysApart] at h
    rw [Content.events, List.append_assoc, build_node node h.1, build_content nodes h.2,
      behind_behind, List.singleton_append]

end

end Cursor

/-! ## Elements that do not end -/

/-- Whether the attributes of an event can be read, if they are kept. -/
def Event.Readable (opts : XmlOptions) : Event → Prop
  | .start _ attributes | .empty _ attributes => opts.attributes → ∃ kept, attributes = .ok kept
  | .stop | .text _ => True

/-- The names of the elements that have begun behind an event, the last one first; none if the
event is an end without a beginning. -/
def Event.openAfter (names : List String) : Event → Option (List String)
  | .start name _ => some (name :: names)
  | .empty _ _ | .text _ => some names
  | .stop =>
    match names with
    | [] => none
    | _ :: outer => some outer

/-- The names of the elements that have begun behind events, the last one first; none if an end
among them has no beginning. -/
def openAfter (names : List String) (es : List Event) : Option (List String) :=
  es.foldlM Event.openAfter names

variable {roots : Entries Value} {begun : List Element}

theorem map_name_place (e : Element) (v : Value) (roots : Entries Value) (begun : List Element) :
    (place e v roots begun).2.map Element.name = begun.map Element.name := by
  cases begun <;> rfl

theorem map_name_placeText (s : String) (begun : List Element) :
    (placeText s begun).map Element.name = begun.map Element.name := by
  cases begun <;> rfl

/-- An element begins with its name, unless its attributes are kept and cannot be read. -/
theorem begin_cases (opts : XmlOptions) (name : String)
    (attributes : Except Error (List (String × String))) :
    (∃ e, Element.begin opts name attributes = .ok e ∧ e.name = name)
      ∨ ∃ e, Element.begin opts name attributes = .error e
        ∧ ¬(opts.attributes → ∃ kept, attributes = .ok kept) := by
  cases hkept : opts.attributes with
  | false =>
    refine .inl ⟨⟨name, [], [], ""⟩, ?_, rfl⟩
    simp only [Element.begin, hkept]
    rfl
  | true =>
    simp only [Element.begin, hkept]
    cases attributes with
    | error e => exact .inr ⟨e, rfl, by simp⟩
    | ok kept => exact .inl ⟨_, rfl, rfl⟩

/-- What an event does: its attributes stop the events, or it is an end without a beginning, or
the events behind it go on, and what has begun then has the names of `Event.openAfter`. -/
theorem build_event (opts : XmlOptions) (roots : Entries Value) (begun : List Element)
    (ev : Event) :
    (¬ev.Readable opts ∧ ∃ e, ∀ rest, build opts roots begun (.event ev rest) = .error e)
      ∨ (ev.openAfter (begun.map Element.name) = none
        ∧ ∀ rest, build opts roots begun (.event ev rest) = .error .unexpectedEnd)
      ∨ ∃ roots' begun', ev.openAfter (begun.map Element.name) = some (begun'.map Element.name)
        ∧ ∀ rest, build opts roots begun (.event ev rest) = build opts roots' begun' rest := by
  cases ev with
  | start name attributes =>
    rcases begin_cases opts name attributes with ⟨e, hbegin, hname⟩ | ⟨e, hbegin, hunreadable⟩
    · refine .inr (.inr ⟨roots, e :: begun, ?_, ?_⟩)
      · rw [Event.openAfter, List.map_cons, hname]
      · intro rest
        rw [build, hbegin]
        rfl
    · refine .inl ⟨hunreadable, e, ?_⟩
      intro rest
      rw [build, hbegin]
      rfl
  | empty name attributes =>
    rcases begin_cases opts name attributes with ⟨e, hbegin, -⟩ | ⟨e, hbegin, hunreadable⟩
    · let placed := place e (e.value opts) roots begun
      refine .inr (.inr ⟨placed.1, placed.2, ?_, ?_⟩)
      · rw [Event.openAfter, map_name_place]
      · intro rest
        rw [build, hbegin]
        rfl
    · refine .inl ⟨hunreadable, e, ?_⟩
      intro rest
      rw [build, hbegin]
      rfl
  | stop =>
    cases begun with
    | nil => exact .inr (.inl ⟨rfl, fun rest => rfl⟩)
    | cons e begun =>
      let placed := place e (e.value opts) roots begun
      refine .inr (.inr ⟨placed.1, placed.2, ?_, fun rest => rfl⟩)
      show some (begun.map Element.name) = some (placed.2.map Element.name)
      rw [map_name_place]
  | text s =>
    refine .inr (.inr ⟨roots, placeText s begun, ?_, fun rest => rfl⟩)
    rw [map_name_placeText]
    rfl

/-- Events have no value unless each element has ended. -/
theorem exists_error_of_openAfter_ne {es : List Event}
    (h : openAfter (begun.map Element.name) es ≠ some []) :
    ∃ e, build opts roots begun (Events.ofList es) = .error e := by
  induction es generalizing roots begun with
  | nil =>
    cases begun with
    | nil => exact absurd rfl h
    | cons e begun => exact ⟨.unclosedElement e.name, rfl⟩
  | cons ev es ih =>
    rcases build_event opts roots begun ev with
      ⟨-, e, he⟩ | ⟨-, he⟩ | ⟨roots', begun', hopen, hbuild⟩
    · exact ⟨e, he _⟩
    · exact ⟨_, he _⟩
    · rw [openAfter, List.foldlM_cons, hopen] at h
      have hrest : ∃ e, build opts roots' begun' (Events.ofList es) = .error e := ih h
      rwa [Events.ofList, hbuild]

/-- Of elements that do not end the last one that has begun is the error. -/
theorem build_of_openAfter {es : List Event} {name : String} {outer : List String}
    (hes : ∀ ev ∈ es, ev.Readable opts)
    (h : openAfter (begun.map Element.name) es = some (name :: outer)) :
    build opts roots begun (Events.ofList es) = .error (.unclosedElement name) := by
  induction es generalizing roots begun with
  | nil =>
    cases begun with
    | nil => cases h
    | cons e begun =>
      cases h
      rfl
  | cons ev es ih =>
    obtain ⟨hev, hes⟩ := List.forall_mem_cons.1 hes
    rw [openAfter, List.foldlM_cons] at h
    rcases build_event opts roots begun ev with
      ⟨hnot, -⟩ | ⟨hopen, -⟩ | ⟨roots', begun', hopen, hbuild⟩
    · exact absurd hev hnot
    · rw [hopen] at h
      cases h
    · rw [hopen] at h
      exact (hbuild _).trans (ih hes h)

/-! ## Documents -/

/-- The events with the beginning and the end of an element apart. -/
def Event.split : Event → List Event
  | .empty name attributes => [.start name attributes, .stop]
  | ev => [ev]

/-- An element that begins and ends in one event is as one that begins and then ends. -/
theorem build_empty (opts : XmlOptions) (roots : Entries Value) (begun : List Element)
    (name : String) (attributes : Except Error (List (String × String))) (rest : Events) :
    build opts roots begun (.event (.empty name attributes) rest)
      = build opts roots begun (.event (.start name attributes) (.event .stop rest)) := by
  rw [build, build]
  cases Element.begin opts name attributes <;> rfl

/-- Behind an event it only counts what the events that are left make of any state. -/
theorem build_event_congr {ev : Event} {rest others : Events}
    (h : ∀ roots begun, build opts roots begun rest = build opts roots begun others) :
    build opts roots begun (.event ev rest) = build opts roots begun (.event ev others) := by
  rcases build_event opts roots begun ev with ⟨-, e, he⟩ | ⟨-, he⟩ | ⟨roots', begun', -, hbuild⟩
  · rw [he, he]
  · rw [he, he]
  · rw [hbuild, hbuild, h]

theorem build_split (es : List Event) :
    build opts roots begun (Events.ofList (es.flatMap Event.split))
      = build opts roots begun (Events.ofList es) := by
  induction es generalizing roots begun with
  | nil => rfl
  | cons ev es ih =>
    have hrest : ∀ roots begun, build opts roots begun (Events.ofList (es.flatMap Event.split))
        = build opts roots begun (Events.ofList es) := fun roots begun => ih
    rw [List.flatMap_cons]
    cases ev with
    | empty name attributes =>
      exact (build_event_congr fun _ _ => build_event_congr hrest).trans
        (build_empty opts roots begun name attributes _).symm
    | _ => exact build_event_congr hrest

/-- The events of a document have its value, whether elements without content begin and end in one
event or in two, which comes to the same.  Events at whose end an element has not ended are an
error, which names the element unless there is another one. -/
theorem build_eq_documentValue (opts : XmlOptions) :
    (∀ nodes es, es.flatMap Event.split = Content.events nodes → Content.KeysApart opts nodes →
      build opts [] [] (Events.ofList es) = .ok (documentValue opts nodes))
    ∧ (∀ roots begun name attributes rest,
      build opts roots begun (.event (.empty name attributes) rest)
        = build opts roots begun (.event (.start name attributes) (.event .stop rest)))
    ∧ (∀ es, openAfter [] es ≠ some [] →
      ∃ e, build opts [] [] (Events.ofList es) = .error e)
    ∧ ∀ es name outer, (∀ ev ∈ es, ev.Readable opts) → openAfter [] es = some (name :: outer) →
      build opts [] [] (Events.ofList es) = .error (.unclosedElement name) := by
  refine ⟨?_, build_empty opts, fun es h => exists_error_of_openAfter_ne h,
    fun es name outer hes h => build_of_openAfter hes h⟩
  intro nodes es hes h
  have hcontent := Cursor.build_content nodes h ⟨[], []⟩ []
  rw [List.append_nil, ← hes] at hcontent
  rw [← build_split]
  exact hcontent

/-- Texts around children, a name that comes twice, and attributes; and the same events where they
break off. -/
theorem build_eq_documentValue_list :
    let opts : XmlOptions := { attributes := true }
    let content : List Node := [.text "a", .element "item" [] [.cdata "x"],
      .element "other" [] [], .element "item" [("on", "true")] [], .text "b"]
    let nodes : List Node := [.element "list" [("id", "i")] content]
    let es : List Event := [.start "list" (.ok [("id", "i")]), .text "a", .start "item" (.ok []),
      .text "x", .stop, .empty "other" (.ok []), .empty "item" (.ok [("on", "true")]), .text "b",
      .stop]
    es.flatMap Event.split = Content.events nodes
      ∧ Content.KeysApart opts nodes
      ∧ build opts [] [] (Events.ofList es)
        = .ok (.object [("list", .object [("@_id", .string "i"),
          ("item", .array [.string "x", .object [("@_on", .boolean true)]]),
          ("other", .string ""), ("#text", .string "ab")])])
      ∧ (∃ e, build opts [] [] (Events.ofList (.stop :: es)) = .error e)
      ∧ build opts [] [] (Events.ofList (es.take 4)) = .error (.unclosedElement "item") := by
  intro opts content nodes es
  have hes : es.flatMap Event.split = Content.events nodes := rfl
  have hkeys : Content.KeysApart opts nodes := by
    simp only [nodes, content, Content.KeysApart, Node.KeysApart, true_and, and_true]
    refine ⟨?_, ?_, ?_, ?_⟩ <;> decide
  have hvalue : documentValue opts nodes = .object [("list", .object [("@_id", .string "i"),
      ("item", .array [.string "x", .object [("@_on", .boolean true)]]),
      ("other", .string ""), ("#text", .string "ab")])] := by
    simp only [opts, nodes, content]
    rfl
  have hreadable : ∀ ev ∈ es.take 4, ev.Readable opts := by simp [es, Event.Readable]
  have hunended : openAfter [] (.stop :: es) ≠ some [] := by
    intro h
    cases h
  refine ⟨hes, hkeys, ?_, ?_, ?_⟩
  · rw [← hvalue]
    exact (build_eq_documentValue opts).1 nodes es hes hkeys
  · exact (build_eq_documentValue opts).2.2.1 (.stop :: es) hunended
  · exact (build_eq_documentValue opts).2.2.2 (es.take 4) "item" ["list"] hreadable rfl

end PipeQuery.Xml
