import PipeQuery.Pipeline.Run
import PipeQuery.Proofs.Number.Numeral
import PipeQuery.Proofs.Pipeline.Groups
import PipeQuery.Proofs.Value.Parts

/-!
# Groups by the texts at several fields

Rows are grouped by several fields through one text, in which the texts at the fields
stand each behind its length.  The length ends at the colon, and the text where the
length says, so that nothing in the texts can be taken for a border
(`keyPart_append_inj`): rows have one key exactly if they have the same texts
(`rowKey_eq_iff`).

`summarize_by_texts` says that this gives the groups of rows with the same texts at all
fields.  Where the fields hold strings, these are the rows with the same values.
-/

namespace PipeQuery

/-! ## Entries -/

namespace Entries

variable {α : Type} {key : String} {a : α} {entries front back : Entries α}

/-- A key that is there is read and written in one place. -/
theorem exists_place (h : key ∈ keys entries) :
    ∃ front a back, entries = front ++ (key, a) :: back ∧ get? key entries = some a
      ∧ ∀ b, insert key b entries = front ++ (key, b) :: back := by
  induction entries with
  | nil => cases h
  | cons e rest ih =>
    obtain ⟨k, a⟩ := e
    by_cases hk : k = key
    · subst hk
      exact ⟨[], a, rest, rfl, by simp [get?], by simp [insert]⟩
    · have hrest : key ∈ keys rest := List.mem_of_ne_of_mem (fun heq => hk heq.symm) h
      obtain ⟨front, b, back, rfl, hget, hinsert⟩ := ih hrest
      refine ⟨(k, a) :: front, b, back, rfl, ?_, ?_⟩
      · simp only [get?, hk, if_false, hget]
      · intro c
        simp only [insert, hk, if_false, hinsert, List.cons_append]

theorem get?_append_of_eq_some (h : get? key front = some a) :
    get? key (front ++ back) = some a := by
  induction front with
  | nil => cases h
  | cons e rest ih =>
    obtain ⟨k, b⟩ := e
    simp only [List.cons_append, get?] at h ⊢
    split at h
    next hk => rw [if_pos hk, h]
    next hk => rw [if_neg hk, ih h]

end Entries

namespace Query

variable {fields : List String} {field : String} {entries : Entries (List Value)}
  {items : List (Value × Nat)} {groups : List (Group (Value × Nat))} {g : Group (Value × Nat)}
  {p q : Value × Nat}

/-! ## Keys of rows -/

/-- The length before a part ends at the colon. -/
theorem takeWhile_isDigit_keyPart (text rest : List Char) :
    (keyPart text ++ rest).takeWhile Char.isDigit = decimalChars text.length := by
  rw [keyPart, List.append_assoc]
  refine takeWhile_run (fun _ => isDigit_of_mem_decimalChars) fun c hc => ?_
  cases hc
  rfl

/-- Where a part of a key ends can be seen. -/
theorem keyPart_append_inj {text other rest rest' : List Char}
    (h : keyPart text ++ rest = keyPart other ++ rest') : text = other ∧ rest = rest' := by
  have hdigits : decimalChars text.length = decimalChars other.length := by
    rw [← takeWhile_isDigit_keyPart text rest, h, takeWhile_isDigit_keyPart]
  have hlength : text.length = other.length := by
    rw [← ofDigitChars_decimalChars text.length, hdigits, ofDigitChars_decimalChars]
  simp only [keyPart, hdigits, List.append_assoc, List.cons_append] at h
  exact List.append_inj (List.cons.inj (List.append_cancel_left h)).2 hlength

theorem keyPart_ne_nil (text : List Char) : keyPart text ≠ [] := by simp [keyPart]

/-- The parts of a key can be read off it. -/
theorem flatMap_keyPart_inj {parts others : List String}
    (h : (parts.flatMap fun part => keyPart part.toList)
      = others.flatMap fun part => keyPart part.toList) : parts = others := by
  induction parts generalizing others with
  | nil =>
    cases others with
    | nil => rfl
    | cons other others => simp [keyPart_ne_nil] at h
  | cons part parts ih =>
    cases others with
    | nil => simp [keyPart_ne_nil] at h
    | cons other others =>
      obtain ⟨hpart, hrest⟩ := keyPart_append_inj h
      rw [String.toList_injective hpart, ih hrest]

/-- Texts have one key exactly if they are the same texts, as many and in the same order, whatever
characters are in them. -/
theorem compositeKey_eq_iff (parts others : List String) :
    compositeKey parts = compositeKey others ↔ parts = others := by
  constructor
  · intro h
    exact flatMap_keyPart_inj (String.ofList_injective h)
  · intro h
    exact congrArg compositeKey h

/-- The second text looks like a part of a key itself, and the last is empty. -/
example : compositeKey ["é", "1:é", ""] = "1:é3:1:é0:" := by decide

/-- Two rows, with their places, have the same text at each field. -/
def SameTexts (fields : List String) (p q : Value × Nat) : Prop :=
  ∀ field ∈ fields, (p.1.field field).text = (q.1.field field).text

theorem equivalenceOn_sameTexts (fields : List String) :
    EquivalenceOn (fun _ => True) (SameTexts fields) where
  refl := fun _ _ _ _ => rfl
  symm := fun _ _ _ _ h field hfield => (h field hfield).symm
  trans := fun _ _ _ _ _ _ h h' field hfield => (h field hfield).trans (h' field hfield)

/-- Rows have one key exactly if they have the same texts. -/
theorem rowKey_eq_iff : rowKey fields p.1 = rowKey fields q.1 ↔ SameTexts fields p q := by
  constructor
  · intro h
    have hparts := flatMap_keyPart_inj (String.ofList_injective h)
    exact List.map_inj_left.1 hparts
  · intro h
    exact congrArg compositeKey (List.map_congr_left h)

/-! ## Rows in turn -/

/-- The rows so far are in groups, each kept behind the key of its first row. -/
structure Keyed (fields : List String) (entries : Entries (List Value))
    (items : List (Value × Nat)) (groups : List (Group (Value × Nat))) : Prop where
  /-- The groups are those of rows with the same texts. -/
  grouped : Grouped (SameTexts fields) items groups
  /-- The rows of the groups are kept in the order of the groups. -/
  entries : entries = groups.map fun g => (rowKey fields g.first.1, groupRows g)

theorem keyed_nil (fields : List String) : Keyed fields [] [] [] where
  grouped := .nil
  entries := rfl

/-- A row with a key that is there goes to the group of this key. -/
theorem Keyed.push (h : Keyed fields entries items groups) (hnodup : (items ++ [p]).Nodup)
    (hkey : rowKey fields p.1 ∈ Entries.keys entries) :
    ∃ groups, Keyed fields (addToGroup fields entries p.1) (items ++ [p]) groups := by
  obtain ⟨front, rows, back, hentries, hget, hinsert⟩ := Entries.exists_place hkey
  rw [h.entries] at hentries
  obtain ⟨front', rest, rfl, rfl, hrest⟩ := List.map_eq_append_iff.1 hentries
  obtain ⟨g, back', rfl, hg, rfl⟩ := List.map_eq_cons_iff.1 hrest
  obtain ⟨hsame, rfl⟩ := Prod.mk.inj hg
  refine ⟨front' ++ g.push p :: back', ?_, ?_⟩
  · exact h.grouped.push (equivalenceOn_sameTexts fields) (fun _ _ => trivial) trivial hnodup
      g.first_mem (rowKey_eq_iff.1 hsame)
  · simp only [addToGroup, hget, hinsert, Option.getD_some, List.map_append, List.map_cons,
      groupRows_push, Group.first_push, hsame]

/-- A row with a new key starts a group. -/
theorem Keyed.start (h : Keyed fields entries items groups)
    (hkey : rowKey fields p.1 ∉ Entries.keys entries) :
    ∃ groups, Keyed fields (addToGroup fields entries p.1) (items ++ [p]) groups := by
  have he := equivalenceOn_sameTexts fields
  refine ⟨groups ++ [⟨p, []⟩], ?_, ?_⟩
  · refine h.grouped.start he (fun _ _ => trivial) trivial fun q hq hsame => hkey ?_
    -- the key of `q` is that of the first row of its group
    obtain ⟨g, hg, -, hgq⟩ := h.grouped.exists_first hq
    have hgp := rowKey_eq_iff.2 (he.trans _ q p trivial trivial trivial hgq hsame)
    rw [h.entries, ← hgp]
    exact List.mem_map.2 ⟨_, List.mem_map.2 ⟨g, hg, rfl⟩, rfl⟩
  · have hget := Entries.get?_eq_none_iff.2 hkey
    simp only [addToGroup, hget, Entries.insert_of_not_mem hkey]
    rw [h.entries, List.map_append]
    rfl

/-- The rows are in groups when all have come. -/
theorem exists_keyed (fields : List String) (rows : List Value) :
    ∃ groups, Keyed fields (rows.foldl (addToGroup fields) []) rows.zipIdx groups := by
  rw [foldl_eq_foldl_zipIdx]
  refine foldl_prefix_induction
    (motive := fun (entries : Entries (List Value)) items => ∃ groups,
      Keyed fields entries items groups)
    ⟨[], keyed_nil fields⟩ ?_
  rintro entries items p hitems ⟨groups, h⟩
  by_cases hkey : rowKey fields p.1 ∈ Entries.keys entries
  · exact h.push (hitems.sublist.nodup (nodup_zipIdx rows)) hkey
  · exact h.start hkey

/-! ## Objects of groups -/

theorem head?_groupRows (g : Group (Value × Nat)) : (groupRows g).head? = some g.first.1 := rfl

theorem get?_foldl_insert {α : Type} (value : String → α) (entries : Entries α) :
    Entries.get? field (fields.foldl (fun acc key => Entries.insert key (value key) acc) entries)
      = if field ∈ fields then some (value field) else Entries.get? field entries := by
  induction fields generalizing entries with
  | nil => simp
  | cons key fields ih =>
    rw [List.foldl_cons, ih, Entries.get?_insert]
    by_cases hfield : field ∈ fields
    · simp [hfield]
    · by_cases hkey : key = field
      · simp [hkey]
      · have hne : field ≠ key := fun heq => hkey heq.symm
        simp [hfield, hkey, hne]

/-- The object of a group begins with what its first row holds at the fields. -/
theorem get?_groupHead (g : Group (Value × Nat)) :
    Entries.get? field (groupHead fields (groupRows g))
      = if field ∈ fields then some (g.first.1.field field) else none := by
  unfold groupHead
  rw [get?_foldl_insert, head?_groupRows]
  rfl

/-- The entries of the object of a group: what its first row holds at the fields, then the
metrics. -/
def groupEntries [Draws] (fields : List String) (metrics : List Metric) (g : Group (Value × Nat)) :
    Entries Value :=
  groupHead fields (groupRows g) ++ withMetrics [] metrics (groupRows g)

/-- The metrics of a group stand behind its fields, if they have other keys. -/
theorem withMetrics_groupHead [Draws] {metrics : List Metric}
    (h : ∀ metric ∈ metrics, metric.target ∉ fields) (g : Group (Value × Nat)) :
    withMetrics (groupHead fields (groupRows g)) metrics (groupRows g)
      = groupEntries fields metrics g := by
  refine withMetrics_eq_append fun metric hmetric hmem => h metric hmetric ?_
  by_contra hfield
  have hget := @get?_groupHead fields metric.target g
  rw [if_neg hfield] at hget
  exact Entries.get?_eq_none_iff.1 hget hmem

theorem get?_groupEntries [Draws] {metrics : List Metric} (h : field ∈ fields)
    (g : Group (Value × Nat)) :
    Entries.get? field (groupEntries fields metrics g) = some (g.first.1.field field) := by
  refine Entries.get?_append_of_eq_some ?_
  rw [get?_groupHead, if_pos h]

theorem summarizeRows_of_two_le [Draws] (h : 2 ≤ fields.length) (metrics : List Metric)
    (rows : List Value) :
    summarizeRows fields metrics rows = .array ((groupByTexts fields rows).map fun group =>
      .object (withMetrics (groupHead fields group) metrics group)) := by
  rcases fields with _ | ⟨first, _ | ⟨second, rest⟩⟩
  · contradiction
  · contradiction
  · rfl

/-- The values of a row at the fields are strings. -/
def HoldsStrings (fields : List String) (row : Value) : Prop :=
  ∀ field ∈ fields, ∃ text, row.field field = .string text

/-- Strings are the same if their texts are. -/
theorem sameTexts_iff_of_strings (hp : HoldsStrings fields p.1) (hq : HoldsStrings fields q.1) :
    SameTexts fields p q ↔ fields.map p.1.field = fields.map q.1.field := by
  rw [List.map_inj_left]
  refine forall₂_congr fun field hfield => ?_
  obtain ⟨text, htext⟩ := hp field hfield
  obtain ⟨other, hother⟩ := hq field hfield
  rw [htext, hother, Value.string.injEq]
  rfl

/-- Grouping rows by several fields puts those with the same texts at all of them together, in the
order in which they came; of rows that hold strings there, these are the ones with the same values.
The object of a group has the values of its first row under the fields and then the metrics of the
group. -/
theorem summarize_by_texts [Draws] (engine : Engine) (fields : List String) (metrics : List Metric)
    (rows : List Value) (hfields : 2 ≤ fields.length)
    (hmetrics : ∀ metric ∈ metrics, metric.target ∉ fields) :
    ∃ groups : List (Group (Value × Nat)),
      Grouped (SameTexts fields) rows.zipIdx groups
        ∧ (∀ p ∈ rows.zipIdx, ∀ q ∈ rows.zipIdx,
          HoldsStrings fields p.1 → HoldsStrings fields q.1 →
            (Together groups p q ↔ fields.map p.1.field = fields.map q.1.field))
        ∧ (Stage.summarize fields metrics).run engine (.array rows)
          = .ok (.array (groups.map fun g => .object (groupEntries fields metrics g)))
        ∧ ∀ g ∈ groups, ∀ field ∈ fields,
          Entries.get? field (groupEntries fields metrics g)
            = some (g.first.1.field field) := by
  obtain ⟨groups, h⟩ := exists_keyed fields rows
  refine ⟨groups, h.grouped, ?_, ?_, fun g _ field hfield => get?_groupEntries hfield g⟩
  · intro p hp q hq hpStrings hqStrings
    rw [h.grouped.together p hp q hq, sameTexts_iff_of_strings hpStrings hqStrings]
  · have hgroups : groupByTexts fields rows = groups.map groupRows := by
      rw [groupByTexts, h.entries, List.map_map]
      rfl
    simp only [Stage.run, summarizeRows_of_two_le hfields, hgroups, List.map_map]
    refine congrArg (fun objects => Except.ok (Value.array objects)) ?_
    exact List.map_congr_left fun g _ => congrArg Value.object (withMetrics_groupHead hmetrics g)

/-- A colon in a text does not move the border between texts. -/
theorem summarize_by_texts_colons :
    ∃ groups : List (Group (Value × Nat)),
      Grouped (SameTexts ["a", "b"])
          [(.object [("a", .string "x:1"), ("b", .string "0")], 0),
            (.object [("a", .string "x"), ("b", .string "1:0")], 1)] groups
        ∧ ¬Together groups (.object [("a", .string "x:1"), ("b", .string "0")], 0)
          (.object [("a", .string "x"), ("b", .string "1:0")], 1)
        ∧ (Stage.summarize ["a", "b"] [⟨⟨.count, []⟩, none⟩]).run .standard
            (.array [.object [("a", .string "x:1"), ("b", .string "0")],
              .object [("a", .string "x"), ("b", .string "1:0")]])
          = .ok (.array (groups.map fun g =>
              .object (groupEntries ["a", "b"] [⟨⟨.count, []⟩, none⟩] g))) := by
  obtain ⟨groups, hgrouped, htuples, hrun, -⟩ :=
    summarize_by_texts .standard ["a", "b"] [⟨⟨.count, []⟩, none⟩]
      [.object [("a", .string "x:1"), ("b", .string "0")],
        .object [("a", .string "x"), ("b", .string "1:0")]] (by decide) (by decide)
  refine ⟨groups, hgrouped, ?_, hrun⟩
  have hfirst : ["a", "b"].map (Value.object [("a", .string "x:1"), ("b", .string "0")]).field
      = [.string "x:1", .string "0"] := rfl
  have hsecond : ["a", "b"].map (Value.object [("a", .string "x"), ("b", .string "1:0")]).field
      = [.string "x", .string "1:0"] := rfl
  have hstrings : ∀ row : Value, ∀ first second,
      ["a", "b"].map row.field = [.string first, .string second] →
        HoldsStrings ["a", "b"] row := by
    intro row first second h
    obtain ⟨ha, hb⟩ := List.cons.inj h
    simp only [HoldsStrings, List.forall_mem_cons]
    exact ⟨⟨first, ha⟩, ⟨second, (List.cons.inj hb).1⟩, by simp⟩
  rw [htuples _ (by simp) _ (by simp) (hstrings _ _ _ hfirst) (hstrings _ _ _ hsecond), hfirst,
    hsecond]
  simp

end Query

end PipeQuery
