import PipeQuery.Format.Xml.Attribute

/-!
# Events in markup

A text of markup is read as events: beginnings and ends of elements, and texts.
Comments, instructions and document types are between events.  Text is trimmed at
both ends before its references are resolved; what stands in a `CDATA` section is
taken as it is.

An end has to have the name of the last beginning that has no end yet.  Whether
attributes can be read is left for later: a beginning carries them, or the error.
-/

namespace PipeQuery.Xml

/-- What is met in markup. -/
inductive Event where
  /-- An element begins. -/
  | start (name : String) (attributes : Except Error (List (String × String)))
  /-- An element begins and ends. -/
  | empty (name : String) (attributes : Except Error (List (String × String)))
  /-- The last element that began ends. -/
  | stop
  /-- A text. -/
  | text (s : String)

/-- Events up to the end of the text or the first error. -/
inductive Events where
  /-- The text ends here. -/
  | finished
  /-- Here is no event. -/
  | failed (error : Error)
  /-- An event and those behind it. -/
  | event (e : Event) (rest : Events)

namespace Events

/-- The events as a list, without the error behind them. -/
def toList : Events → List Event
  | .event e rest => e :: rest.toList
  | _ => []

/-- These events and then no error. -/
def ofList : List Event → Events
  | [] => .finished
  | e :: rest => .event e (ofList rest)

end Events

/-- The text without white space behind. -/
def dropSpaceEnd (cs : List Char) : List Char := (cs.reverse.dropWhile isSpace).reverse

/-! ## Ends of markup -/

/-- The text up to the first closing angle bracket outside quotes, and what is behind it. -/
def untilBracket (quote : Option Char) : List Char → Option (List Char × List Char)
  | [] => none
  | c :: rest =>
    if c = '>' && quote.isNone then some ([], rest)
    else
      let quote :=
        match quote with
        | some q => if c = q then none else some q
        | none => if c = '"' || c = '\'' then some c else none
      (untilBracket quote rest).map fun (tag, after) => (c :: tag, after)

/-- The text up to the first closing angle bracket at which `closes` holds of the text before
it, read backwards, and what is behind it. -/
def untilClosed (closes : List Char → Bool) (before : List Char) :
    List Char → Option (List Char × List Char)
  | [] => none
  | c :: rest =>
    if c = '>' && closes before then some (before.reverse, rest)
    else untilClosed closes (c :: before) rest

/-- Whether a comment read backwards is closed. -/
def closesComment (before : List Char) : Bool :=
  ['-', '-'].isPrefixOf before && 5 ≤ before.length

/-- Whether a section read backwards is closed. -/
def closesSection (before : List Char) : Bool := [']', ']'].isPrefixOf before

/-- Whether as many angle brackets open as close in a document type. -/
def closesDoctype (before : List Char) : Bool := before.count '<' == before.count '>'

/-- Whether an instruction read backwards is closed. -/
def closesInstruction (before : List Char) : Bool := ['?'].isPrefixOf before

/-! ## Markup -/

/-- The text and then the events behind it, if there is any text. -/
def textEvent (cs : List Char) (rest : Events) : Events :=
  if cs.isEmpty then rest
  else match resolve cs with
    | .ok text => .event (.text (String.ofList text)) rest
    | .error e => .failed e

/-- What a declaration is, behind the exclamation mark: a section with its text, or nothing. -/
def declaration (cs : List Char) : Except Error (Option (List Char) × List Char) :=
  match cs with
  | '-' :: _ =>
    match untilClosed closesComment ['!'] cs with
    | some (content, rest) =>
      if ['!', '-', '-'].isPrefixOf content then .ok (none, rest) else .error (.unclosed .comment)
    | none => .error (.unclosed .comment)
  | '[' :: _ =>
    match untilClosed closesSection ['!'] cs with
    | some (content, rest) =>
      if "![CDATA[".toList.isPrefixOf content then
        .ok (some ((content.drop 8).take (content.length - 10)), rest)
      else .error (.unclosed .cdata)
    | none => .error (.unclosed .cdata)
  | c :: _ =>
    if c = 'D' || c = 'd' then
      match untilClosed closesDoctype ['!'] cs with
      | some (content, rest) =>
        if (content.take 8).map Char.toUpper ≠ "!DOCTYPE".toList then .error (.unclosed .doctype)
        else if (content.drop 8).all isSpace then .error .missingDoctypeName
        else .ok (none, rest)
      | none => .error (.unclosed .doctype)
    else .error .unknownDeclaration
  | [] => .error .unknownDeclaration

/-- What is behind an instruction, whose question mark is at the beginning. -/
def instruction (cs : List Char) : Except Error (List Char) :=
  match untilClosed closesInstruction [] cs with
  | some (content, rest) => if content.length < 2 then .error (.unclosed .instruction) else .ok rest
  | none => .error (.unclosed .instruction)

/-- The name in the tag that ends an element, behind the slash. -/
def endName (tag : List Char) : List Char :=
  if tag.all isSpace then tag else dropSpaceEnd tag

/-- The name in the tag that begins an element. -/
def startName (tag : List Char) : List Char := tag.takeWhile (!isSpace ·)

/-- The names of elements that have begun, without the last one, which has to have this name. -/
def endElement (names : List (List Char)) (name : List Char) : Except Error (List (List Char)) :=
  match names with
  | [] => .error (.unmatchedEnd (String.ofList name))
  | expected :: names =>
    if name = expected then .ok names
    else .error (.mismatchedEnd (String.ofList expected) (String.ofList name))

/-! ## What is left -/

theorem length_untilBracket_lt {quote : Option Char} {cs tag rest : List Char}
    (h : untilBracket quote cs = some (tag, rest)) : rest.length < cs.length := by
  induction cs generalizing quote tag with
  | nil => cases h
  | cons c tail ih =>
    unfold untilBracket at h
    split at h
    · cases h
      simp
    · simp only [Option.map_eq_some_iff, Prod.mk.injEq] at h
      obtain ⟨⟨tag', rest'⟩, hu, _, rfl⟩ := h
      exact Nat.lt_succ_of_lt (ih hu)

theorem length_untilClosed_lt {closes : List Char → Bool} {before cs content rest : List Char}
    (h : untilClosed closes before cs = some (content, rest)) : rest.length < cs.length := by
  induction cs generalizing before with
  | nil => cases h
  | cons c tail ih =>
    unfold untilClosed at h
    split at h
    · cases h
      simp
    · exact Nat.lt_succ_of_lt (ih h)

theorem length_declaration_lt {cs rest : List Char} {content : Option (List Char)}
    (h : declaration cs = .ok (content, rest)) : rest.length < cs.length := by
  unfold declaration at h
  split at h
  · split at h
    · rename_i hu
      split at h
      · cases h
        exact length_untilClosed_lt hu
      · cases h
    · cases h
  · split at h
    · rename_i hu
      split at h
      · cases h
        exact length_untilClosed_lt hu
      · cases h
    · cases h
  · split at h
    · split at h
      · rename_i hu
        split at h
        · cases h
        · split at h
          · cases h
          · cases h
            exact length_untilClosed_lt hu
      · cases h
    · cases h
  · cases h

theorem length_instruction_lt {cs rest : List Char} (h : instruction cs = .ok rest) :
    rest.length < cs.length := by
  unfold instruction at h
  split at h
  · rename_i hu
    split at h
    · cases h
    · cases h
      exact length_untilClosed_lt hu
  · cases h

theorem length_behindText_lt {c : Char} {cs markup : List Char}
    (h : (skipSpace cs).dropWhile (· ≠ '<') = c :: markup) : markup.length < cs.length := by
  have h₁ : (skipSpace cs).length ≤ cs.length := length_skipSpace_le cs
  have h₂ := (List.dropWhile_sublist (fun c => decide (c ≠ '<')) (l := skipSpace cs)).length_le
  rw [h] at h₂
  simp only [List.length_cons] at h₂
  omega

/-! ## All events -/

mutual

/-- The events of a text in which elements with these names have begun, the last one first. -/
def eventsFrom (names : List (List Char)) (cs : List Char) : Events :=
  let ahead := skipSpace cs
  let text := dropSpaceEnd (ahead.takeWhile (· ≠ '<'))
  match h : ahead.dropWhile (· ≠ '<') with
  | [] => textEvent text .finished
  | _ :: markup =>
    have : markup.length < cs.length := length_behindText_lt h
    textEvent text (markupFrom names markup)
termination_by 2 * cs.length

/-- The events of a text that goes on behind an opening angle bracket. -/
def markupFrom (names : List (List Char)) (cs : List Char) : Events :=
  match cs with
  | [] => .failed (.unclosed .tag)
  | '!' :: cs =>
    match h : declaration cs with
    | .error e => .failed e
    | .ok (none, rest) =>
      have := length_declaration_lt h
      eventsFrom names rest
    | .ok (some content, rest) =>
      have := length_declaration_lt h
      .event (.text (String.ofList content)) (eventsFrom names rest)
  | '?' :: cs =>
    match h : instruction ('?' :: cs) with
    | .error e => .failed e
    | .ok rest =>
      have : rest.length < cs.length + 1 := length_instruction_lt h
      eventsFrom names rest
  | '/' :: cs =>
    match h : untilBracket none cs with
    | none => .failed (.unclosed .tag)
    | some (tag, rest) =>
      have := length_untilBracket_lt h
      match endElement names (endName tag) with
      | .error e => .failed e
      | .ok names => .event .stop (eventsFrom names rest)
  | c :: cs =>
    match h : untilBracket none (c :: cs) with
    | none => .failed (.unclosed .tag)
    | some (tag, rest) =>
      have : rest.length < cs.length + 1 := length_untilBracket_lt h
      if tag.getLast? = some '/' then
        let tag := tag.dropLast
        .event (.empty (String.ofList (startName tag)) (attributes tag)) (eventsFrom names rest)
      else
        let name := startName tag
        .event (.start (String.ofList name) (attributes tag)) (eventsFrom (name :: names) rest)
termination_by 2 * cs.length + 1

end

/-- The events of a text, without a byte order mark in front. -/
def events (text : String) : Events :=
  match text.toList with
  | '\uFEFF' :: cs => eventsFrom [] cs
  | cs => eventsFrom [] cs

end PipeQuery.Xml
