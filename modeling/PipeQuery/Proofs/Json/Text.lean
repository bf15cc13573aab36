import PipeQuery.Format.Json.Reader
import PipeQuery.Proofs.Json.Scalar
import PipeQuery.Proofs.Value.Parts
import PipeQuery.Text.Search

/-!
# Compact JSON text

How the compact print of a container is made of the prints of its parts, which
characters it begins with, and that no control character is in it.
-/

namespace PipeQuery.Json

variable {c : Char}

/-! ## Compact text -/

/-- A key and its value behind the quote that opens the key. -/
def memberChars (d : Nat) (key : String) (x : Value) : List Char :=
  key.toList.flatMap jsonChar ++ '"' :: ':' :: x.render .compact d

theorem render_array (d : Nat) (x : Value) (items : List Value) :
    (Value.array (x :: items)).render .compact d
      = '[' :: (x.render .compact (d + 1)
        ++ (Value.renderItems .compact (d + 1) items ++ [']'])) := by
  rw [Value.render]
  simp [Form.newline]

theorem renderItems_cons (d : Nat) (x : Value) (items : List Value) :
    Value.renderItems .compact d (x :: items)
      = ',' :: (x.render .compact d ++ Value.renderItems .compact d items) := by
  rw [Value.renderItems]
  simp [Form.newline]

theorem render_object (d : Nat) (key : String) (x : Value) (entries : List (String × Value)) :
    (Value.object ((key, x) :: entries)).render .compact d
      = '\x7b' :: '"' :: (memberChars (d + 1) key x
        ++ (Value.renderEntries .compact (d + 1) entries ++ ['\x7d'])) := by
  rw [Value.render]
  simp [Form.newline, Form.colon, jsonString, memberChars]

theorem renderEntries_cons (d : Nat) (key : String) (x : Value)
    (entries : List (String × Value)) :
    Value.renderEntries .compact d ((key, x) :: entries)
      = ',' :: '"' :: (memberChars d key x ++ Value.renderEntries .compact d entries) := by
  rw [Value.renderEntries]
  simp [Form.newline, Form.colon, jsonString, memberChars]

/-! ## Parts with commas between them -/

theorem joinWith_comma_cons (text : List Char) (texts : List (List Char)) :
    joinWith [','] (text :: texts) = text ++ texts.flatMap (',' :: ·) := by
  induction texts generalizing text with
  | nil => simp [joinWith]
  | cons next texts ih => simp [joinWith, ih]

theorem renderItems_eq_flatMap (d : Nat) (items : List Value) :
    Value.renderItems .compact d items
      = (items.map (Value.render .compact d)).flatMap (',' :: ·) := by
  induction items with
  | nil => rw [Value.renderItems, List.map_nil, List.flatMap_nil]
  | cons x items ih =>
    rw [renderItems_cons, ih]
    rfl

theorem render_array_eq_joinWith (d : Nat) (items : List Value) :
    (Value.array items).render .compact d
      = '[' :: joinWith [','] (items.map (Value.render .compact (d + 1))) ++ [']'] := by
  cases items with
  | nil =>
    rw [Value.render]
    rfl
  | cons x items =>
    rw [render_array, renderItems_eq_flatMap, List.map_cons, joinWith_comma_cons]
    simp

/-- An entry of an object in its compact print. -/
def entryChars (d : Nat) (e : String × Value) : List Char :=
  jsonString e.1 ++ ':' :: e.2.render .compact d

theorem quote_memberChars (d : Nat) (key : String) (x : Value) :
    '"' :: memberChars d key x = entryChars d (key, x) := by
  simp [memberChars, entryChars, jsonString]

theorem renderEntries_eq_flatMap (d : Nat) (entries : List (String × Value)) :
    Value.renderEntries .compact d entries = (entries.map (entryChars d)).flatMap (',' :: ·) := by
  induction entries with
  | nil => rw [Value.renderEntries, List.map_nil, List.flatMap_nil]
  | cons e entries ih =>
    obtain ⟨key, x⟩ := e
    rw [renderEntries_cons, ih, ← List.cons_append, quote_memberChars]
    rfl

theorem render_object_eq_joinWith (d : Nat) (entries : List (String × Value)) :
    (Value.object entries).render .compact d
      = '\x7b' :: joinWith [','] (entries.map (entryChars (d + 1))) ++ ['\x7d'] := by
  cases entries with
  | nil =>
    rw [Value.render]
    rfl
  | cons e entries =>
    obtain ⟨key, x⟩ := e
    rw [render_object, renderEntries_eq_flatMap, ← List.cons_append, quote_memberChars,
      List.map_cons, joinWith_comma_cons]
    simp

/-! ## Beginnings -/

/-- A number is printed as a sign, digits or a word. -/
theorem exists_jsonNumber_eq (n : Number) :
    ∃ c cs, jsonNumber n = c :: cs ∧ isSpace c = false ∧ c ≠ ']' := by
  unfold jsonNumber
  split
  · cases n with
    | nan => contradiction
    | infinite negative => contradiction
    | finite negative m =>
      obtain ⟨x, -, hchars, -⟩ := chars_finite negative m
      obtain ⟨c, rest, hx, hc⟩ := x.exists_chars_eq
      have hfacts : isSpace c = false ∧ c ≠ ']' := by
        simp [isSpace, ne_of_isDigit hc]
      rw [hchars, hx]
      unfold signChars
      split
      · exact ⟨'-', c :: rest, rfl, rfl, by decide⟩
      · exact ⟨c, rest, rfl, hfacts⟩
  · exact ⟨'n', ['u', 'l', 'l'], rfl, rfl, by decide⟩

/-- No print begins with white space or the end of an array. -/
theorem exists_render_eq (d : Nat) (v : Value) :
    ∃ c cs, v.render .compact d = c :: cs ∧ isSpace c = false ∧ c ≠ ']' := by
  cases v with
  | null => exact ⟨'n', _, by rw [Value.render], rfl, by decide⟩
  | boolean b =>
    cases b with
    | false => exact ⟨'f', _, by rw [Value.render], rfl, by decide⟩
    | true => exact ⟨'t', _, by rw [Value.render], rfl, by decide⟩
  | number n =>
    rw [Value.render]
    exact exists_jsonNumber_eq n
  | string s => exact ⟨'"', _, by rw [Value.render, jsonString]; rfl, rfl, by decide⟩
  | array items =>
    cases items with
    | nil => exact ⟨'[', _, by rw [Value.render], rfl, by decide⟩
    | cons x rest => exact ⟨'[', _, by rw [Value.render]; rfl, rfl, by decide⟩
  | object entries =>
    cases entries with
    | nil => exact ⟨'\x7b', _, by rw [Value.render], rfl, by decide⟩
    | cons e rest => exact ⟨'\x7b', _, by rw [Value.render]; rfl, rfl, by decide⟩

/-! ## Control characters -/

theorem noControl_jsonNumber (n : Number) : NoControl (jsonNumber n) := by
  unfold jsonNumber
  split
  · cases n with
    | nan => contradiction
    | infinite negative => contradiction
    | finite negative m =>
      obtain ⟨x, -, hchars, -⟩ := chars_finite negative m
      have hsign : NoControl (signChars (negative && decide (m.steps ≠ 0))) := by
        unfold signChars
        split <;> exact noControl_of_all rfl
      rw [hchars]
      exact hsign.append (noControl_numeral x)
  · exact noControl_of_all rfl

theorem noControl_memberChars {d : Nat} (key : String) {x : Value}
    (hx : NoControl (x.render .compact d)) : NoControl (memberChars d key x) := by
  have hkey : NoControl (key.toList.flatMap jsonChar) := by
    intro c hc
    obtain ⟨k, -, hk⟩ := List.mem_flatMap.1 hc
    exact noControl_jsonChar k c hk
  exact hkey.append (.cons rfl (.cons rfl hx))

theorem noControl_renderItems {d : Nat} {items : List Value}
    (h : ∀ x ∈ items, NoControl (x.render .compact d)) :
    NoControl (Value.renderItems .compact d items) := by
  induction items with
  | nil =>
    rw [Value.renderItems]
    exact noControl_nil
  | cons x items ih =>
    obtain ⟨hx, hitems⟩ := List.forall_mem_cons.1 h
    rw [renderItems_cons]
    exact .cons rfl (hx.append (ih hitems))

theorem noControl_renderEntries {d : Nat} {entries : List (String × Value)}
    (h : ∀ e ∈ entries, NoControl (e.2.render .compact d)) :
    NoControl (Value.renderEntries .compact d entries) := by
  induction entries with
  | nil =>
    rw [Value.renderEntries]
    exact noControl_nil
  | cons e entries ih =>
    obtain ⟨key, x⟩ := e
    obtain ⟨hx, hentries⟩ := List.forall_mem_cons.1 h
    rw [renderEntries_cons]
    exact .cons rfl (.cons rfl ((noControl_memberChars key hx).append (ih hentries)))

/-- No compact print holds a control character. -/
theorem noControl_render (d : Nat) (v : Value) : NoControl (v.render .compact d) := by
  induction v using Value.by_parts generalizing d with
  | null =>
    rw [Value.render]
    exact noControl_of_all rfl
  | boolean b =>
    cases b with
    | false =>
      rw [Value.render]
      exact noControl_of_all rfl
    | true =>
      rw [Value.render]
      exact noControl_of_all rfl
  | number n =>
    rw [Value.render]
    exact noControl_jsonNumber n
  | string s =>
    rw [Value.render]
    exact noControl_jsonString s
  | array items ih =>
    cases items with
    | nil =>
      rw [Value.render]
      exact noControl_of_all rfl
    | cons x items =>
      obtain ⟨hx, hitems⟩ := List.forall_mem_cons.1 ih
      have hrest := noControl_renderItems fun y hy => hitems y hy (d + 1)
      rw [render_array]
      exact .cons rfl ((hx (d + 1)).append (hrest.append (.cons rfl noControl_nil)))
  | object entries ih =>
    cases entries with
    | nil =>
      rw [Value.render]
      exact noControl_of_all rfl
    | cons e entries =>
      obtain ⟨key, x⟩ := e
      obtain ⟨hx, hentries⟩ := List.forall_mem_cons.1 ih
      have hmember := noControl_memberChars key (hx (d + 1))
      have hrest := noControl_renderEntries fun e he => hentries e he (d + 1)
      rw [render_object]
      exact .cons rfl (.cons rfl
        (hmember.append (hrest.append (.cons rfl noControl_nil))))

end PipeQuery.Json
