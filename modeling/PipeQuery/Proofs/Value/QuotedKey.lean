import PipeQuery.Proofs.Entries
import PipeQuery.Proofs.Value.PathText

/-!
# Keys in quotes

A key in brackets and quotes is a path of one segment, whatever the key looks like
(`ofText_quotedKey`).  That segment is an index if the key reads as one, and the key
of an index is how its number is written.  So the path leads to the key itself unless
the key is padded (`Padded`): with a plus sign, or with a zero before other digits.

`quotedKey_but_for_padding` says this of reading, writing and removing in all objects,
and `quotedKey_loses_zeros` shows what becomes of a key with zeros in front.
-/

namespace PipeQuery

/-! ## Padded numbers -/

/-- The text reads as an index, but has a plus sign or a needless zero in front. -/
def Padded (cs : List Char) : Prop :=
  (∃ i, ReadsAs cs i) ∧ (cs.head? = some '+' ∨ cs.head? = some '0' ∧ 1 < cs.length)

/-- A text that reads as an index is how the index is written, if nothing is in front of it. -/
theorem decimalChars_eq_iff {cs : List Char} {i : Nat} (h : ReadsAs cs i) :
    decimalChars i = cs ↔ ¬ Padded cs := by
  have hpadded : Padded cs ↔ cs.head? = some '+' ∨ cs.head? = some '0' ∧ 1 < cs.length :=
    and_iff_right ⟨i, h⟩
  rw [hpadded]
  constructor
  · rintro rfl (hplus | ⟨hzero, hlength⟩)
    · cases isDigit_of_mem_decimalChars (List.mem_of_head? hplus)
    · by_cases hi : i = 0
      · subst hi
        cases hlength with
        | step hle => cases hle
      · exact head?_decimalChars_ne hi hzero
  · intro hplain
    obtain ⟨hplus, hzero⟩ := not_or.1 hplain
    obtain ⟨digits, hcs, hne, hdigits, rfl, -⟩ := h
    rcases hcs with rfl | rfl
    · refine decimalChars_ofDigitChars hne hdigits fun hhead => ?_
      obtain ⟨c, rest, rfl⟩ := List.exists_cons_of_ne_nil hne
      cases hhead
      have hrest : rest = [] := by simpa using hzero
      rw [hrest]
    · exact absurd rfl hplus

/-- A name is the key of its segment, unless it is padded. -/
theorem Segment.key_ofName_eq_iff (name : String) :
    (ofName name).key = name ↔ ¬ Padded name.toList := by
  have hname := names_ofName name
  generalize ofName name = segment at hname
  cases hname with
  | index h => rw [key, ← decimalChars_eq_iff h, ← String.toList_inj, String.toList_ofList]
  | field h => exact iff_of_true rfl fun hpadded => hpadded.1.elim h

/-! ## Paths to a key -/

/-- In every object the path leads to the entry of the key: reading finds it, writing writes it,
and removing takes it out. -/
structure LeadsToKey (path key : String) : Prop where
  /-- What is read is what the key holds. -/
  field : ∀ entries, (Value.object entries).field path = (Entries.get? key entries).getD .null
  /-- What is written is what the key holds then. -/
  setField : ∀ entries x,
    (Value.object entries).setField path x = .object (Entries.insert key x entries)
  /-- What is removed is the key. -/
  removeField : ∀ entries,
    (Value.object entries).removeField path = .object (Entries.erase key entries)

/-- A path of one segment leads to the key of the segment. -/
theorem leadsToKey_of_segment {path : String} {segment : Segment}
    (h : Path.ofText path = [segment]) : LeadsToKey path segment.key where
  field entries := by
    simp only [Value.field, h, Value.get, Value.find?, Value.child?]
    cases Entries.get? segment.key entries <;> rfl
  setField entries x := by simp [Value.setField, h, Value.set]
  removeField entries := by
    simp only [Value.removeField, h, Value.remove, Value.remove?, List.isEmpty_nil, if_true]
    cases hget : Entries.get? segment.key entries with
    | some inner => rfl
    | none =>
      rw [Entries.erase_of_not_mem (Entries.get?_eq_none_iff.1 hget)]
      rfl

/-- A path leads to one key only. -/
theorem LeadsToKey.unique {path key other : String} (h : LeadsToKey path key)
    (hother : LeadsToKey path other) : key = other := by
  have hfield := h.field [(key, .boolean true)]
  rw [hother.field] at hfield
  by_contra hne
  simp [Entries.get?, hne] at hfield

/-- A key in brackets and double quotes. -/
def quotedKey (key : String) : String := "[\"" ++ key ++ "\"]"

theorem ofText_quotedKey {key : String} (h : '"' ∉ key.toList) :
    Path.ofText (quotedKey key) = [.ofName key] := by
  have htext : (quotedKey key).toList
      = writtenNames true [⟨key, .quoted '"', .inl rfl, h⟩] := by
    simp [quotedKey, writtenNames, Spelling.chars]
  rw [Path.ofText, htext, Path.parsePlain_writtenNames]
  rfl

/-- A key in quotes leads to the entry of that key unless it is padded, and then to the entry of
the number as it is written without padding. -/
theorem quotedKey_but_for_padding {key : String} (h : '"' ∉ key.toList) :
    (LeadsToKey (quotedKey key) key ↔ ¬ Padded key.toList)
      ∧ ∀ i, ReadsAs key.toList i →
        LeadsToKey (quotedKey key) (String.ofList (decimalChars i)) := by
  have hkey : LeadsToKey (quotedKey key) (Segment.ofName key).key :=
    leadsToKey_of_segment (ofText_quotedKey h)
  constructor
  · rw [← Segment.key_ofName_eq_iff]
    constructor
    · intro hown
      exact hkey.unique hown
    · intro heq
      rwa [heq] at hkey
  · intro i hi
    have hsegment : Segment.ofName key = .index i := by
      rw [Segment.ofName, Segment.ofChars, readIndex?_eq_some_iff.2 hi]
    rwa [hsegment] at hkey

/-- Digits with a zero in front lead to the number without it. -/
theorem quotedKey_but_for_padding_digits : '"' ∉ "01234".toList ∧ ReadsAs "01234".toList 1234
    ∧ ¬ LeadsToKey (quotedKey "01234") "01234" ∧ LeadsToKey (quotedKey "01234") "1234" := by
  have hquote : '"' ∉ "01234".toList := by decide
  have hreads : ReadsAs "01234".toList 1234 := readIndex?_eq_some_iff.1 (by decide)
  have hpadded : Padded "01234".toList := ⟨⟨1234, hreads⟩, .inr (by decide)⟩
  obtain ⟨hown, hnumber⟩ := quotedKey_but_for_padding hquote
  exact ⟨hquote, hreads, fun h => hown.1 h hpadded, hnumber 1234 hreads⟩

/-- The entry of a key with zeros in front is neither read nor removed by the key in quotes, and
what is written there becomes another entry. -/
theorem quotedKey_loses_zeros : '"' ∉ "007".toList
    ∧ (Value.object [("007", .string "Bond")]).field (quotedKey "007") = .null
    ∧ (Value.object [("007", .string "Bond")]).setField (quotedKey "007") .null
      = .object [("007", .string "Bond"), ("7", .null)]
    ∧ (Value.object [("007", .string "Bond")]).removeField (quotedKey "007")
      = .object [("007", .string "Bond")] := by
  have hquote : '"' ∉ "007".toList := by decide
  have hseven : LeadsToKey (quotedKey "007") "7" := leadsToKey_of_segment (ofText_quotedKey hquote)
  refine ⟨hquote, ?_, ?_, ?_⟩
  · rw [hseven.field]
    rfl
  · rw [hseven.setField]
    rfl
  · rw [hseven.removeField]
    rfl

end PipeQuery
