import PipeQuery.Proofs.Json.Text

/-!
# Printed values read back

`valueAt_render` says that the compact print of a value is read up to what separates
values.  It is by induction on the parts of the value, with the text behind it and
the depth left general; the lists inside containers have a lemma each.

What is read differs from what was printed in numbers only: one that is not finite
was printed as `null`, and zero has lost its sign.
-/

namespace PipeQuery.Json

variable {c : Char} {depth : Nat}

/-! ## Values without parts -/

theorem skipSpace_cons (hc : isSpace c = false) (cs : List Char) :
    skipSpace (c :: cs) = c :: cs := by
  simp [skipSpace, hc]

theorem wordAt_append (v : Value) (word rest : List Char) :
    ∃ h, wordAt v word (word ++ rest) = .ok (v, ⟨rest, h⟩) := by
  induction word with
  | nil => exact ⟨Nat.le_refl _, rfl⟩
  | cons c word ih =>
    obtain ⟨h, hword⟩ := ih
    refine ⟨Nat.le_succ_of_le h, ?_⟩
    simp only [List.cons_append, wordAt, if_true, hword]
    rfl

/-- A word is read as the value it names. -/
theorem valueAt_word {v : Value} {word : List Char}
    (h : (v, c :: word) ∈ [(Value.null, ['n', 'u', 'l', 'l']),
      (.boolean true, ['t', 'r', 'u', 'e']), (.boolean false, ['f', 'a', 'l', 's', 'e'])])
    (rest : List Char) : ∃ h, valueAt depth (c :: word ++ rest) = .ok (v, ⟨rest, h⟩) := by
  obtain ⟨hle, hword⟩ := wordAt_append v word rest
  refine ⟨Nat.lt_succ_of_le hle, ?_⟩
  simp only [List.mem_cons, List.not_mem_nil, or_false, Prod.mk.injEq, List.cons.injEq] at h
  rw [valueAt]
  split
  · rename_i hnil
    rcases h with ⟨rfl, rfl, rfl⟩ | ⟨rfl, rfl, rfl⟩ | ⟨rfl, rfl, rfl⟩ <;> cases hnil
  · rename_i c' rest' hcons
    rcases h with ⟨rfl, rfl, rfl⟩ | ⟨rfl, rfl, rfl⟩ | ⟨rfl, rfl, rfl⟩
    all_goals
      rw [List.cons_append, skipSpace_cons (by decide)] at hcons
      cases hcons
      simp only [hword]
      rfl

theorem stringValueAt_of_stringAt {cs text rest : List Char} (h : stringAt cs = .ok (text, rest)) :
    ∃ h, stringValueAt cs = .ok (String.ofList text, ⟨rest, h⟩) := by
  refine ⟨length_stringAt_lt h, ?_⟩
  unfold stringValueAt
  split
  · rename_i text' rest' hok
    rw [h] at hok
    cases hok
    rfl
  · rename_i fault hfault
    rw [h] at hfault
    cases hfault

theorem stringValueAt_jsonString (s : String) (rest : List Char) :
    ∃ h, stringValueAt (s.toList.flatMap jsonChar ++ '"' :: rest) = .ok (s, ⟨rest, h⟩) := by
  obtain ⟨h, hread⟩ := stringValueAt_of_stringAt (stringAt_flatMap_jsonChar s.toList rest)
  rw [String.ofList_toList] at hread
  exact ⟨h, hread⟩

theorem valueAt_string (s : String) (rest : List Char) :
    ∃ h, valueAt depth (jsonString s ++ rest) = .ok (.string s, ⟨rest, h⟩) := by
  obtain ⟨h, hread⟩ := stringValueAt_jsonString s rest
  have htext : jsonString s ++ rest = '"' :: (s.toList.flatMap jsonChar ++ '"' :: rest) := by
    simp [jsonString]
  rw [htext]
  refine ⟨Nat.lt_succ_of_lt h, ?_⟩
  rw [valueAt]
  split
  · rename_i hnil
    cases hnil
  · rename_i c' rest' hcons
    rw [skipSpace_cons (by decide)] at hcons
    cases hcons
    simp only [hread]
    rfl

/-! ## Numbers -/

/-- What a printed number is read as: without the sign of zero, and `null` if not finite. -/
def reread : Number → Value
  | .finite negative m => .number (.finite (negative && decide (m.steps ≠ 0)) m)
  | _ => .null

theorem numberValueAt_of_numberAt {negative : Bool} {cs rest : List Char} {n : Number}
    (h : numberAt negative cs = .ok (n, rest)) :
    ∃ h, numberValueAt negative cs = .ok (.number n, ⟨rest, h⟩) := by
  refine ⟨length_numberAt_lt h, ?_⟩
  unfold numberValueAt
  split
  · rename_i n' rest' hok
    rw [h] at hok
    cases hok
    rfl
  · rename_i fault hfault
    rw [h] at hfault
    cases hfault

theorem valueAt_minus {cs rest : List Char} {n : Number} (h : numberAt true cs = .ok (n, rest)) :
    ∃ h, valueAt depth ('-' :: cs) = .ok (.number n, ⟨rest, h⟩) := by
  obtain ⟨hlt, hread⟩ := numberValueAt_of_numberAt h
  refine ⟨Nat.lt_succ_of_lt hlt, ?_⟩
  rw [valueAt]
  split
  · rename_i hnil
    cases hnil
  · rename_i c' rest' hcons
    rw [skipSpace_cons (by decide)] at hcons
    cases hcons
    simp only [hread]
    rfl

theorem valueAt_digit {cs rest : List Char} {n : Number} (hc : c.isDigit = true)
    (h : numberAt false (c :: cs) = .ok (n, rest)) :
    ∃ h, valueAt depth (c :: cs) = .ok (.number n, ⟨rest, h⟩) := by
  have hspace : isSpace c = false := by simp [isSpace, ne_of_isDigit hc]
  obtain ⟨hlt, hread⟩ := numberValueAt_of_numberAt h
  refine ⟨hlt, ?_⟩
  rw [valueAt]
  split
  · rename_i hnil
    rw [skipSpace_cons hspace] at hnil
    cases hnil
  · rename_i c' rest' hcons
    rw [skipSpace_cons hspace] at hcons
    cases hcons
    split
    · cases hc
    · cases hc
    · cases hc
    · cases hc
    · cases hc
    · cases hc
    · cases hc
    · simp only [hc, if_true, hread]
      rfl

theorem valueAt_number (n : Number) {rest : List Char} (hrest : Ends rest) :
    ∃ h, valueAt depth (jsonNumber n ++ rest) = .ok (reread n, ⟨rest, h⟩) := by
  have hnull : ∃ h, valueAt depth ('n' :: ['u', 'l', 'l'] ++ rest) = .ok (.null, ⟨rest, h⟩) :=
    valueAt_word List.mem_cons_self rest
  cases n with
  | nan => exact hnull
  | infinite negative => exact hnull
  | finite negative m =>
    obtain ⟨x, hx, hchars, hm⟩ := chars_finite negative m
    have htext : jsonNumber (.finite negative m)
        = signChars (negative && decide (m.steps ≠ 0)) ++ x.chars := hchars
    rw [htext, reread]
    cases hsign : negative && decide (m.steps ≠ 0) with
    | true => exact valueAt_minus (numberAt_numeral true hx hm hrest)
    | false =>
      have hread := numberAt_numeral false hx hm hrest
      obtain ⟨c, cs, hcs, hc⟩ := x.exists_chars_eq
      rw [hcs] at hread
      have hfalse : signChars false ++ x.chars ++ rest = c :: (cs ++ rest) := by
        rw [hcs]
        rfl
      rw [hfalse]
      exact valueAt_digit hc hread

/-! ## Items -/

/-- A value is read from its print, whatever separates it from what is behind. -/
def ReadsBack (depth : Nat) (v : Value) : Prop :=
  ∀ (d : Nat) (rest : List Char), Ends rest →
    ∃ h, valueAt depth (v.render .compact d ++ rest) = .ok (v.mapNumbers reread, ⟨rest, h⟩)

theorem itemsAt_close (first : Bool) (rest : List Char) :
    ∃ h, itemsAt depth first (']' :: rest) = .ok ([], ⟨rest, h⟩) := by
  refine ⟨Nat.lt_succ_self _, ?_⟩
  rw [itemsAt]
  split
  · rename_i hnil
    cases hnil
  · rename_i c' rest' hcons
    rw [skipSpace_cons (by decide)] at hcons
    cases hcons
    simp only [if_true]
    rfl

theorem ends_renderItems (d : Nat) (items : List Value) (rest : List Char) :
    Ends (Value.renderItems .compact d items ++ ']' :: rest) := by
  intro c hc
  cases items with
  | nil =>
    rw [Value.renderItems] at hc
    cases hc
    exact Or.inr (Or.inl rfl)
  | cons x items =>
    rw [Value.renderItems] at hc
    cases hc
    exact Or.inl rfl

theorem itemsAt_renderItems {items : List Value} (hitems : ∀ x ∈ items, ReadsBack depth x)
    (d : Nat) (rest : List Char) :
    ∃ h, itemsAt depth false (Value.renderItems .compact d items ++ ']' :: rest)
      = .ok (Value.mapNumbersItems reread items, ⟨rest, h⟩) := by
  induction items with
  | nil =>
    rw [Value.renderItems, Value.mapNumbersItems]
    exact itemsAt_close false rest
  | cons x items ih =>
    obtain ⟨hx, hitems⟩ := List.forall_mem_cons.1 hitems
    obtain ⟨h₂, hread₂⟩ := ih hitems
    obtain ⟨h₁, hread₁⟩ := hx d _ (ends_renderItems d items rest)
    obtain ⟨c, cs, hhead, hspace, hclose⟩ := exists_render_eq d x
    have htext : Value.renderItems .compact d (x :: items) ++ ']' :: rest
        = ',' :: (x.render .compact d ++ (Value.renderItems .compact d items ++ ']' :: rest)) := by
      rw [renderItems_cons]
      simp
    rw [htext, Value.mapNumbersItems]
    refine ⟨Nat.lt_succ_of_lt (Nat.lt_trans h₂ h₁), ?_⟩
    rw [itemsAt]
    split
    · rename_i hnil
      cases hnil
    · rename_i c' rest' hcons
      rw [skipSpace_cons (by decide)] at hcons
      cases hcons
      have hskip : skipSpace (x.render .compact d
          ++ (Value.renderItems .compact d items ++ ']' :: rest))
          = c :: (cs ++ (Value.renderItems .compact d items ++ ']' :: rest)) := by
        rw [hhead, List.cons_append, skipSpace_cons hspace]
      simp only [hskip, hclose, hread₁, hread₂, bind, Except.bind, if_false, if_true,
        Bool.false_eq_true, show ',' ≠ ']' by decide]
      rfl

theorem itemsAt_render {x : Value} {items : List Value} (hx : ReadsBack depth x)
    (hitems : ∀ x ∈ items, ReadsBack depth x) (d : Nat) (rest : List Char) :
    ∃ h, itemsAt depth true
        (x.render .compact d ++ (Value.renderItems .compact d items ++ ']' :: rest))
      = .ok (Value.mapNumbersItems reread (x :: items), ⟨rest, h⟩) := by
  obtain ⟨h₂, hread₂⟩ := itemsAt_renderItems hitems d rest
  obtain ⟨h₁, hread₁⟩ := hx d _ (ends_renderItems d items rest)
  obtain ⟨c, cs, hhead, hspace, hclose⟩ := exists_render_eq d x
  rw [Value.mapNumbersItems]
  refine ⟨Nat.lt_trans h₂ h₁, ?_⟩
  have hskip : skipSpace (x.render .compact d
      ++ (Value.renderItems .compact d items ++ ']' :: rest))
      = c :: (cs ++ (Value.renderItems .compact d items ++ ']' :: rest)) := by
    rw [hhead, List.cons_append, skipSpace_cons hspace]
  rw [itemsAt]
  split
  · rename_i hnil
    rw [hskip] at hnil
    cases hnil
  · rename_i c' rest' hcons
    rw [hskip] at hcons
    cases hcons
    simp only [hclose, hread₁, hread₂, bind, Except.bind, if_false, if_true]
    rfl

/-! ## Members -/

theorem membersAt_close (first : Bool) (rest : List Char) :
    ∃ h, membersAt depth first ('\x7d' :: rest) = .ok ([], ⟨rest, h⟩) := by
  refine ⟨Nat.lt_succ_self _, ?_⟩
  rw [membersAt]
  split
  · rename_i hnil
    cases hnil
  · rename_i c' rest' hcons
    rw [skipSpace_cons (by decide)] at hcons
    cases hcons
    simp only [if_true]
    rfl

theorem colonAt_colon (rest : List Char) : ∃ h, colonAt (':' :: rest) = .ok ⟨rest, h⟩ := by
  refine ⟨Nat.lt_succ_self _, ?_⟩
  unfold colonAt
  split
  · rename_i hnil
    cases hnil
  · rename_i c' rest' hcons
    rw [skipSpace_cons (by decide)] at hcons
    cases hcons
    simp only [if_true]

/-- A member is read behind the quote that opens its key. -/
theorem memberAt_memberChars (key : String) {x : Value} (hx : ReadsBack depth x) (d : Nat)
    {rest : List Char} (hrest : Ends rest) :
    ∃ h, memberAt depth (memberChars d key x ++ rest)
      = .ok ((key, x.mapNumbers reread), ⟨rest, h⟩) := by
  have htext : memberChars d key x ++ rest
      = key.toList.flatMap jsonChar ++ '"' :: ':' :: (x.render .compact d ++ rest) := by
    simp [memberChars]
  obtain ⟨h₁, hkey⟩ := stringValueAt_jsonString key (':' :: (x.render .compact d ++ rest))
  obtain ⟨h₂, hcolon⟩ := colonAt_colon (x.render .compact d ++ rest)
  obtain ⟨h₃, hvalue⟩ := hx d rest hrest
  rw [htext]
  refine ⟨Nat.lt_trans h₃ (Nat.lt_trans h₂ h₁), ?_⟩
  rw [memberAt]
  simp only [hkey, hcolon, hvalue, bind, Except.bind]
  rfl

theorem ends_renderEntries (d : Nat) (entries : List (String × Value)) (rest : List Char) :
    Ends (Value.renderEntries .compact d entries ++ '\x7d' :: rest) := by
  intro c hc
  cases entries with
  | nil =>
    rw [Value.renderEntries] at hc
    cases hc
    exact Or.inr (Or.inr rfl)
  | cons e entries =>
    rw [Value.renderEntries] at hc
    cases hc
    exact Or.inl rfl

theorem membersAt_renderEntries {entries : List (String × Value)}
    (hentries : ∀ e ∈ entries, ReadsBack depth e.2) (d : Nat) (rest : List Char) :
    ∃ h, membersAt depth false (Value.renderEntries .compact d entries ++ '\x7d' :: rest)
      = .ok (Value.mapNumbersEntries reread entries, ⟨rest, h⟩) := by
  induction entries with
  | nil =>
    rw [Value.renderEntries, Value.mapNumbersEntries]
    exact membersAt_close false rest
  | cons e entries ih =>
    obtain ⟨key, x⟩ := e
    obtain ⟨hx, hentries⟩ := List.forall_mem_cons.1 hentries
    obtain ⟨h₂, hread₂⟩ := ih hentries
    obtain ⟨h₁, hread₁⟩ := memberAt_memberChars key hx d (ends_renderEntries d entries rest)
    have htext : Value.renderEntries .compact d ((key, x) :: entries) ++ '\x7d' :: rest
        = ',' :: '"' :: (memberChars d key x
          ++ (Value.renderEntries .compact d entries ++ '\x7d' :: rest)) := by
      rw [renderEntries_cons]
      simp
    rw [htext, Value.mapNumbersEntries]
    refine ⟨Nat.lt_succ_of_lt (Nat.lt_succ_of_lt (Nat.lt_trans h₂ h₁)), ?_⟩
    rw [membersAt]
    split
    · rename_i hnil
      cases hnil
    · rename_i c' rest' hcons
      rw [skipSpace_cons (by decide)] at hcons
      cases hcons
      simp only [show ',' ≠ '\x7d' by decide, Bool.false_eq_true, if_false, if_true]
      split
      · rename_i hnil
        cases hnil
      · rename_i c' rest' hcons
        rw [skipSpace_cons (by decide)] at hcons
        cases hcons
        simp only [if_true, hread₁, hread₂, bind, Except.bind]
        rfl

theorem membersAt_render {key : String} {x : Value} {entries : List (String × Value)}
    (hx : ReadsBack depth x) (hentries : ∀ e ∈ entries, ReadsBack depth e.2) (d : Nat)
    (rest : List Char) :
    ∃ h, membersAt depth true ('"' :: (memberChars d key x
        ++ (Value.renderEntries .compact d entries ++ '\x7d' :: rest)))
      = .ok (Value.mapNumbersEntries reread ((key, x) :: entries), ⟨rest, h⟩) := by
  obtain ⟨h₂, hread₂⟩ := membersAt_renderEntries hentries d rest
  obtain ⟨h₁, hread₁⟩ := memberAt_memberChars key hx d (ends_renderEntries d entries rest)
  rw [Value.mapNumbersEntries]
  refine ⟨Nat.lt_succ_of_lt (Nat.lt_trans h₂ h₁), ?_⟩
  rw [membersAt]
  split
  · rename_i hnil
    cases hnil
  · rename_i c' rest' hcons
    rw [skipSpace_cons (by decide)] at hcons
    cases hcons
    simp only [show '"' ≠ '\x7d' by decide, if_false, if_true, hread₁, hread₂, bind, Except.bind]
    rfl

/-! ## Values -/

theorem valueAt_array {cs rest : List Char} {items : List Value}
    (h : ∃ h, itemsAt depth true cs = .ok (items, ⟨rest, h⟩)) :
    ∃ h, valueAt (depth + 1) ('[' :: cs) = .ok (.array items, ⟨rest, h⟩) := by
  obtain ⟨hlt, hread⟩ := h
  refine ⟨Nat.lt_succ_of_lt hlt, ?_⟩
  rw [valueAt]
  split
  · rename_i hnil
    cases hnil
  · rename_i c' rest' hcons
    rw [skipSpace_cons (by decide)] at hcons
    cases hcons
    simp only [hread]
    rfl

theorem valueAt_object {cs rest : List Char} {entries : List (String × Value)}
    (hkeys : (Entries.keys entries).Nodup)
    (h : ∃ h, membersAt depth true cs = .ok (entries, ⟨rest, h⟩)) :
    ∃ h, valueAt (depth + 1) ('\x7b' :: cs) = .ok (.object entries, ⟨rest, h⟩) := by
  obtain ⟨hlt, hread⟩ := h
  refine ⟨Nat.lt_succ_of_lt hlt, ?_⟩
  rw [valueAt]
  split
  · rename_i hnil
    cases hnil
  · rename_i c' rest' hcons
    rw [skipSpace_cons (by decide)] at hcons
    cases hcons
    simp only [hread, Except.map, Entries.ofList_of_nodup hkeys]

/-- A value is read from its compact print, if containers nest no deeper than is read. -/
theorem valueAt_render {v : Value} (hv : v.Distinct) (hdepth : v.depth ≤ depth) :
    ReadsBack depth v := by
  induction v using Value.by_parts generalizing depth with
  | null =>
    intro d rest _
    simp only [Value.render, Value.mapNumbers]
    exact valueAt_word (by simp) rest
  | boolean b =>
    intro d rest _
    cases b with
    | false =>
      simp only [Value.render, Value.mapNumbers]
      exact valueAt_word (by simp) rest
    | true =>
      simp only [Value.render, Value.mapNumbers]
      exact valueAt_word (by simp) rest
  | number n =>
    intro d rest hrest
    rw [Value.render, Value.mapNumbers]
    exact valueAt_number n hrest
  | string s =>
    intro d rest _
    simp only [Value.render, Value.mapNumbers]
    exact valueAt_string s rest
  | array items ih =>
    intro d rest _
    rw [Value.Distinct, Value.distinctItems_iff] at hv
    rw [Value.depth] at hdepth
    obtain ⟨depth, rfl⟩ : ∃ k, depth = k + 1 := Nat.exists_eq_succ_of_ne_zero (by omega)
    have hitems : ∀ x ∈ items, ReadsBack depth x := fun x hx =>
      ih x hx (hv x hx) (Value.depthItems_le_iff.1 (by omega) x hx)
    cases items with
    | nil =>
      simp only [Value.render, Value.mapNumbers, Value.mapNumbersItems]
      exact valueAt_array (itemsAt_close true rest)
    | cons x items =>
      obtain ⟨hx, hitems⟩ := List.forall_mem_cons.1 hitems
      have htext : (Value.array (x :: items)).render .compact d ++ rest
          = '[' :: (x.render .compact (d + 1)
            ++ (Value.renderItems .compact (d + 1) items ++ ']' :: rest)) := by
        rw [render_array]
        simp
      rw [htext, Value.mapNumbers]
      exact valueAt_array (itemsAt_render hx hitems (d + 1) rest)
  | object entries ih =>
    intro d rest _
    rw [Value.Distinct, Value.distinctEntries_iff] at hv
    obtain ⟨hkeys, hv⟩ := hv
    rw [Value.depth] at hdepth
    obtain ⟨depth, rfl⟩ : ∃ k, depth = k + 1 := Nat.exists_eq_succ_of_ne_zero (by omega)
    have hentries : ∀ e ∈ entries, ReadsBack depth e.2 := fun e he =>
      ih e he (hv e he) (Value.depthEntries_le_iff.1 (by omega) e he)
    rw [← Value.keys_mapNumbersEntries (f := reread)] at hkeys
    rw [Value.mapNumbers]
    cases entries with
    | nil =>
      simp only [Value.render, Value.mapNumbersEntries]
      exact valueAt_object hkeys (membersAt_close true rest)
    | cons e entries =>
      obtain ⟨key, x⟩ := e
      obtain ⟨hx, hentries⟩ := List.forall_mem_cons.1 hentries
      have htext : (Value.object ((key, x) :: entries)).render .compact d ++ rest
          = '\x7b' :: '"' :: (memberChars (d + 1) key x
            ++ (Value.renderEntries .compact (d + 1) entries ++ '\x7d' :: rest)) := by
        rw [render_object]
        simp
      rw [htext]
      exact valueAt_object hkeys (membersAt_render hx hentries (d + 1) rest)

/-! ## Round trip -/

/-- A number as it stands in data: `null` where it is not finite. -/
def orNull (n : Number) : Value := if n.isFinite then .number n else .null

theorem equals_reread (n : Number) : (reread n).equals (orNull n) = true := by
  cases n with
  | nan => rfl
  | infinite negative => rfl
  | finite negative m =>
    have hposition : Number.position? (.finite (negative && decide (m.steps ≠ 0)) m)
        = Number.position? (.finite negative m) := by
      by_cases hz : m.steps = 0
      · cases negative <;> simp [Number.position?, Magnitude.signed, hz]
      · simp [hz]
    have hequals : Number.equals (.finite (negative && decide (m.steps ≠ 0)) m)
        (.finite negative m) = true :=
      Number.equals_iff.2 ⟨_, hposition, rfl⟩
    simpa [reread, orNull, Number.isFinite, Value.equals] using hequals

theorem keyLists_reread (n : Number) : (reread n).keyLists = [] := by
  cases n <;> simp [reread, Value.keyLists]

/-- A value whose keys are distinct and whose containers nest no deeper than is read is read back
from its compact print.  What is read equals the value with `null` in place of the numbers that are
not finite, and has all keys in their order; and no control character is printed. -/
theorem read_toJson (v : Value) (hdistinct : v.Distinct) (hdepth : v.depth ≤ 127) :
    (∃ w, read (v.toJson .compact) = .ok w ∧ w.equals (v.mapNumbers orNull) = true
      ∧ w.keyLists = v.keyLists)
      ∧ ∀ c ∈ (v.toJson .compact).toList, isControl c = false := by
  have hvalue := valueAt_render hdistinct hdepth 0 [] ends_nil
  rw [List.append_nil] at hvalue
  obtain ⟨h, hread⟩ := hvalue
  refine ⟨⟨v.mapNumbers reread, ?_, Value.equals_mapNumbers equals_reread hdistinct,
    Value.keyLists_mapNumbers keyLists_reread v⟩, ?_⟩
  · have hmax : maxDepth = 127 := rfl
    rw [Value.toJson, read, String.toList_ofList, readWithin, hmax, hread]
    rfl
  · rw [Value.toJson, String.toList_ofList]
    exact noControl_render 0 v

/-- A number that is not finite, a control character beyond ASCII, and keys out of order. -/
theorem read_toJson_control :
    ∃ w, read "\x7b\"b\":null,\"a\":\"\\u0085\"\x7d" = .ok w
      ∧ w.equals (.object [("b", .null), ("a", .string "\u0085")]) = true
      ∧ w.keyLists = [["b", "a"]] := by
  obtain ⟨⟨w, hread, hequals, hkeys⟩, -⟩ :=
    read_toJson (.object [("b", .number .nan), ("a", .string "\u0085")])
      (by simp [Value.Distinct, Value.DistinctEntries, Entries.keys]) (by decide)
  have htext : (Value.object [("b", .number .nan), ("a", .string "\u0085")]).toJson .compact
      = "\x7b\"b\":null,\"a\":\"\\u0085\"\x7d" := by decide
  rw [htext] at hread
  exact ⟨w, hread, hequals, hkeys⟩

end PipeQuery.Json
