import PipeQuery.Proofs.Json.Scalar
import PipeQuery.Proofs.Value.Parts

/-!
# The layout of JSON text

*Layout* are the spaces and line breaks outside strings.  A scanner tells where strings are by
quotes and backslashes alone (`Place`), and `withoutLayout` drops the layout of any text.

A print is put together from texts that the scanner meets at some place and leaves at another.
`Leaves` says this of a text, with what is left of it when the layout is dropped.  Texts compose
where the places meet (`Leaves.append`), so that each part of a print has a lemma: line breaks and
indents leave nothing, strings and numbers leave themselves.  `leaves_render` puts the parts
together by induction on the value, for either form and at any depth.
-/

namespace PipeQuery.Json

/-! ## Dropping the layout -/

/-- Where a scanner of JSON text stands. -/
inductive Place where
  /-- Outside strings. -/
  | outside
  /-- In a string. -/
  | inside
  /-- In a string, behind a backslash that escapes what comes next. -/
  | escaped
deriving DecidableEq

/-- Where the scanner stands behind a character. -/
def Place.next : Place → Char → Place
  | .outside, c => if c = '"' then .inside else .outside
  | .inside, c => if c = '"' then .outside else if c = '\\' then .escaped else .inside
  | .escaped, _ => .inside

/-- What is left of a text that the scanner meets at a place. -/
def withoutLayoutFrom (p : Place) : List Char → List Char
  | [] => []
  | c :: cs =>
    if p = .outside ∧ (c = ' ' ∨ c = '\n') then withoutLayoutFrom p cs
    else c :: withoutLayoutFrom (p.next c) cs

/-- A JSON text without the spaces and line breaks outside strings. -/
def withoutLayout (text : String) : String :=
  String.ofList (withoutLayoutFrom .outside text.toList)

/-- A text that the scanner meets at the place `p` and leaves at `q`, with what is left of it,
whatever comes next. -/
def Leaves (p q : Place) (cs ds : List Char) : Prop :=
  ∀ rest, withoutLayoutFrom p (cs ++ rest) = ds ++ withoutLayoutFrom q rest

variable {p q r : Place} {c : Char} {cs ds es fs : List Char} {form : Form} {d : Nat}

theorem leaves_nil (p : Place) : Leaves p p [] [] := fun _ => rfl

theorem Leaves.append (h : Leaves p q cs ds) (h' : Leaves q r es fs) :
    Leaves p r (cs ++ es) (ds ++ fs) := by
  intro rest
  rw [List.append_assoc, h, h', List.append_assoc]

/-- A character that is no layout is left. -/
theorem Leaves.cons (hc : p = .outside → c ≠ ' ' ∧ c ≠ '\n') (h : Leaves (p.next c) q cs ds) :
    Leaves p q (c :: cs) (c :: ds) := by
  intro rest
  have hkept : ¬ (p = .outside ∧ (c = ' ' ∨ c = '\n')) := by
    rintro ⟨hp, rfl | rfl⟩
    · exact (hc hp).1 rfl
    · exact (hc hp).2 rfl
  exact (if_neg hkept).trans (congrArg (c :: ·) (h rest))

/-- Nothing is left of layout. -/
theorem leaves_layout (h : ∀ c ∈ cs, c = ' ' ∨ c = '\n') : Leaves .outside .outside cs [] := by
  induction cs with
  | nil => exact leaves_nil .outside
  | cons c cs ih =>
    obtain ⟨hc, hcs⟩ := List.forall_mem_cons.1 h
    intro rest
    exact (if_pos ⟨rfl, hc⟩).trans (ih hcs rest)

/-- Characters that mean nothing to the scanner are left. -/
theorem leaves_outside (h : ∀ c ∈ cs, c ≠ '"' ∧ c ≠ ' ' ∧ c ≠ '\n') :
    Leaves .outside .outside cs cs := by
  induction cs with
  | nil => exact leaves_nil .outside
  | cons c cs ih =>
    obtain ⟨⟨hquote, hc⟩, hcs⟩ := List.forall_mem_cons.1 h
    have hnext : Place.next .outside c = .outside := if_neg hquote
    refine .cons (fun _ => hc) ?_
    rw [hnext]
    exact ih hcs

/-- In a string everything is left, and only a quote or a backslash changes the place. -/
theorem leaves_inside (h : ∀ c ∈ cs, c ≠ '"' ∧ c ≠ '\\') : Leaves .inside .inside cs cs := by
  induction cs with
  | nil => exact leaves_nil .inside
  | cons c cs ih =>
    obtain ⟨⟨hquote, hback⟩, hcs⟩ := List.forall_mem_cons.1 h
    have hnext : Place.next .inside c = .inside := (if_neg hquote).trans (if_neg hback)
    refine .cons (by rintro ⟨⟩) ?_
    rw [hnext]
    exact ih hcs

/-- An escaped character is left with its backslash, also if it is a quote. -/
theorem leaves_escape (c : Char) : Leaves .inside .inside ['\\', c] ['\\', c] := fun _ => rfl

/-! ## Strings and numbers -/

/-- The digits of an escaped control character neither end the string nor escape anything. -/
theorem fourHexDigits_ne :
    ∀ n < 160, (fourHexDigits n).all (fun c => c != '"' && c != '\\') = true := by
  decide +kernel

theorem leaves_jsonChar (c : Char) : Leaves .inside .inside (jsonChar c) (jsonChar c) := by
  unfold jsonChar
  split
  · exact leaves_escape '"'
  · exact leaves_escape '\\'
  · exact leaves_escape 'n'
  · exact leaves_escape 'r'
  · exact leaves_escape 't'
  · rename_i hquote hback _ _ _
    split
    · rename_i hcontrol
      have hdigits : ∀ d ∈ fourHexDigits c.toNat, d ≠ '"' ∧ d ≠ '\\' := by
        simpa using fourHexDigits_ne c.toNat (toNat_lt_of_isControl hcontrol)
      exact (leaves_escape 'u').append (leaves_inside hdigits)
    · exact leaves_inside (List.forall_mem_singleton.2 ⟨hquote, hback⟩)

/-- A string is left as it is. -/
theorem leaves_jsonString (s : String) :
    Leaves .outside .outside (jsonString s) (jsonString s) := by
  have hchars : Leaves .inside .inside (s.toList.flatMap jsonChar)
      (s.toList.flatMap jsonChar) := by
    induction s.toList with
    | nil => exact leaves_nil .inside
    | cons c cs ih => exact (leaves_jsonChar c).append ih
  have hclose : Leaves .inside .outside ['"'] ['"'] := fun _ => rfl
  exact .cons (by decide) (hchars.append hclose)

/-- A numeral is made of digits and a point. -/
theorem isPlain_numeral (x : Numeral) :
    ∀ c ∈ x.chars, c ≠ '"' ∧ c ≠ ' ' ∧ c ≠ '\n' := by
  have hdigit : ∀ c : Char, c.isDigit = true → c ≠ '"' ∧ c ≠ ' ' ∧ c ≠ '\n' := by
    intro c hc
    exact ⟨ne_of_isDigit hc rfl, ne_of_isDigit hc rfl, ne_of_isDigit hc rfl⟩
  refine List.forall_mem_append.2 ⟨fun c hc => hdigit c (x.whole_digits c hc), ?_⟩
  unfold Numeral.fractionChars
  split
  · exact List.forall_mem_nil _
  · refine List.forall_mem_cons.2 ⟨by decide, ?_⟩
    intro c hc
    exact hdigit c (x.fraction_digits c hc)

/-- A number is left as it is. -/
theorem leaves_jsonNumber (n : Number) :
    Leaves .outside .outside (jsonNumber n) (jsonNumber n) := by
  have hnull : Leaves .outside .outside ['n', 'u', 'l', 'l'] ['n', 'u', 'l', 'l'] :=
    fun _ => rfl
  cases n with
  | nan => exact hnull
  | infinite negative => exact hnull
  | finite negative m =>
    obtain ⟨x, -, hchars, -⟩ := chars_finite negative m
    have htext : jsonNumber (.finite negative m)
        = signChars (negative && decide (m.steps ≠ 0)) ++ x.chars := hchars
    have hsign : ∀ b, Leaves .outside .outside (signChars b) (signChars b) := by
      intro b
      cases b with
      | false => exact leaves_nil .outside
      | true => exact fun _ => rfl
    rw [htext]
    exact (hsign _).append (leaves_outside (isPlain_numeral x))

/-! ## Containers -/

/-- A sign between values, in front of a text. -/
theorem leaves_sign (hc : c ≠ '"' ∧ c ≠ ' ' ∧ c ≠ '\n') (h : Leaves .outside q cs ds) :
    Leaves .outside q (c :: cs) (c :: ds) :=
  (leaves_outside (List.forall_mem_singleton.2 hc)).append h

theorem leaves_newline (form : Form) (depth : Nat) :
    Leaves .outside .outside (form.newline depth) (Form.compact.newline depth) := by
  cases form with
  | compact => exact leaves_nil .outside
  | pretty =>
    refine leaves_layout (List.forall_mem_cons.2 ⟨.inr rfl, ?_⟩)
    intro c hc
    exact .inl (List.eq_of_mem_replicate hc)

theorem leaves_colon (form : Form) : Leaves .outside .outside form.colon Form.compact.colon := by
  cases form <;> exact fun _ => rfl

/-- Of the print of a value its compact print is left. -/
def Reduces (form : Form) (d : Nat) (v : Value) : Prop :=
  Leaves .outside .outside (v.render form d) (v.render .compact d)

theorem leaves_renderItems {items : List Value} (h : ∀ x ∈ items, Reduces form d x) :
    Leaves .outside .outside (Value.renderItems form d items)
      (Value.renderItems .compact d items) := by
  induction items with
  | nil =>
    rw [Value.renderItems, Value.renderItems]
    exact leaves_nil .outside
  | cons x items ih =>
    obtain ⟨hx, hitems⟩ := List.forall_mem_cons.1 h
    have hcomma := leaves_sign (c := ',') (by decide) (leaves_newline form d)
    rw [Value.renderItems, Value.renderItems]
    exact (hcomma.append hx).append (ih hitems)

theorem leaves_renderEntries {entries : List (String × Value)}
    (h : ∀ e ∈ entries, Reduces form d e.2) :
    Leaves .outside .outside (Value.renderEntries form d entries)
      (Value.renderEntries .compact d entries) := by
  induction entries with
  | nil =>
    rw [Value.renderEntries, Value.renderEntries]
    exact leaves_nil .outside
  | cons e entries ih =>
    obtain ⟨key, x⟩ := e
    obtain ⟨hx, hentries⟩ := List.forall_mem_cons.1 h
    have hcomma := leaves_sign (c := ',') (by decide) (leaves_newline form d)
    have hkey := (hcomma.append (leaves_jsonString key)).append (leaves_colon form)
    rw [Value.renderEntries, Value.renderEntries]
    exact (hkey.append hx).append (ih hentries)

/-- Whichever the form, of the print of a value its compact print is left. -/
theorem leaves_render (form : Form) (d : Nat) (v : Value) : Reduces form d v := by
  induction v using Value.by_parts generalizing d with
  | null =>
    rw [Reduces, Value.render, Value.render]
    exact fun _ => rfl
  | boolean b =>
    cases b with
    | false =>
      rw [Reduces, Value.render, Value.render]
      exact fun _ => rfl
    | true =>
      rw [Reduces, Value.render, Value.render]
      exact fun _ => rfl
  | number n =>
    rw [Reduces, Value.render, Value.render]
    exact leaves_jsonNumber n
  | string s =>
    rw [Reduces, Value.render, Value.render]
    exact leaves_jsonString s
  | array items ih =>
    cases items with
    | nil =>
      rw [Reduces, Value.render, Value.render]
      exact fun _ => rfl
    | cons x items =>
      obtain ⟨hx, hitems⟩ := List.forall_mem_cons.1 ih
      have hopen := leaves_sign (c := '[') (by decide) (leaves_newline form (d + 1))
      have hrest := leaves_renderItems fun y hy => hitems y hy (d + 1)
      have hclose : Leaves .outside .outside [']'] [']'] := fun _ => rfl
      rw [Reduces, Value.render, Value.render]
      exact (((hopen.append (hx (d + 1))).append hrest).append (leaves_newline form d)).append
        hclose
  | object entries ih =>
    cases entries with
    | nil =>
      rw [Reduces, Value.render, Value.render]
      exact fun _ => rfl
    | cons e entries =>
      obtain ⟨key, x⟩ := e
      obtain ⟨hx, hentries⟩ := List.forall_mem_cons.1 ih
      have hopen := leaves_sign (c := '\x7b') (by decide) (leaves_newline form (d + 1))
      have hkey := (hopen.append (leaves_jsonString key)).append (leaves_colon form)
      have hrest := leaves_renderEntries fun e he => hentries e he (d + 1)
      have hclose : Leaves .outside .outside ['\x7d'] ['\x7d'] := fun _ => rfl
      rw [Reduces, Value.render, Value.render]
      exact (((hkey.append (hx (d + 1))).append hrest).append (leaves_newline form d)).append
        hclose

/-- The pretty print of a value differs from the compact one in layout only, and the compact one
has none. -/
theorem prints_differ_in_layout (v : Value) :
    withoutLayout (v.toJson .pretty) = v.toJson .compact
      ∧ withoutLayout (v.toJson .compact) = v.toJson .compact := by
  have hform : ∀ form, withoutLayout (v.toJson form) = v.toJson .compact := by
    intro form
    have hleft := leaves_render form 0 v []
    rw [List.append_nil, withoutLayoutFrom, List.append_nil] at hleft
    rw [withoutLayout, Value.toJson, String.toList_ofList, hleft]
    rfl
  exact ⟨hform .pretty, hform .compact⟩

/-- A key with a colon and a space, and a text with an escaped quote and a line break. -/
example : withoutLayout "\x7b\n  \"a: b\": [\n    \" \\\" \\n\"\n  ]\n\x7d"
    = "\x7b\"a: b\":[\" \\\" \\n\"]\x7d" := by decide

end PipeQuery.Json
