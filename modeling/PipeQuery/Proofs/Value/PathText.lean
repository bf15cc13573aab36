import Mathlib.Data.List.Forall2
import PipeQuery.Proofs.Number.Numeral
import PipeQuery.Value.Path

/-!
# Paths as they are written

A path is a row of names, each behind a point, in brackets, or in brackets and quotes.
A name may be written in every way that has room for its characters
(`Spelling.Admits`), and the way does not matter: `path_of_spellings` says that the
text of the names is the path of their segments, where a name that reads as an index
(`ReadsAs`) is the index and any other a field (`Segment.Names`).

The reader goes over the text with what it has of the current name.  `parsePlain_name`
and the two lemmas on brackets say what it makes of one name, and `parsePlain_break`
that a point, a bracket or the end completes a name.
-/

namespace PipeQuery

/-! ## Texts that read as an index -/

/-- The text is digits, perhaps behind a plus sign, and they spell an index. -/
def ReadsAs (cs : List Char) (i : Nat) : Prop :=
  ∃ digits, (cs = digits ∨ cs = '+' :: digits) ∧ digits ≠ []
    ∧ (∀ c ∈ digits, c.isDigit = true) ∧ Nat.ofDigitChars 10 digits 0 = i ∧ i < indexLimit

/-- The text behind a plus sign, if it begins with one. -/
def behindPlus (cs : List Char) : List Char :=
  match cs with
  | '+' :: rest => rest
  | _ => cs

theorem readIndex?_eq (cs : List Char) :
    readIndex? cs = if (behindPlus cs).isEmpty || !(behindPlus cs).all Char.isDigit then none
      else if Nat.ofDigitChars 10 (behindPlus cs) 0 < indexLimit
        then some (Nat.ofDigitChars 10 (behindPlus cs) 0) else none := rfl

theorem behindPlus_cases (cs : List Char) : cs = behindPlus cs ∨ cs = '+' :: behindPlus cs := by
  unfold behindPlus
  split
  · exact .inr rfl
  · exact .inl rfl

theorem behindPlus_of_digits {cs digits : List Char} (hcs : cs = digits ∨ cs = '+' :: digits)
    (hdigits : ∀ c ∈ digits, c.isDigit = true) : behindPlus cs = digits := by
  rcases hcs with rfl | rfl
  · unfold behindPlus
    split
    · cases hdigits '+' List.mem_cons_self
    · rfl
  · rfl

/-- What is read from a text as an index is the index that it spells. -/
theorem readIndex?_eq_some_iff {cs : List Char} {i : Nat} :
    readIndex? cs = some i ↔ ReadsAs cs i := by
  rw [readIndex?_eq]
  constructor
  · intro h
    rw [Option.ite_none_left_eq_some, Option.ite_none_right_eq_some, Option.some_inj] at h
    obtain ⟨hdigits, hlt, rfl⟩ := h
    simp only [Bool.or_eq_true, Bool.not_eq_true', not_or, List.isEmpty_iff,
      Bool.not_eq_false, List.all_eq_true] at hdigits
    exact ⟨behindPlus cs, behindPlus_cases cs, hdigits.1, hdigits.2, rfl, hlt⟩
  · rintro ⟨digits, hcs, hne, hdigits, rfl, hlt⟩
    have hempty : digits.isEmpty = false := by simpa using hne
    have hall : digits.all Char.isDigit = true := List.all_eq_true.2 hdigits
    simp only [behindPlus_of_digits hcs hdigits, hempty, hall, Bool.not_true, Bool.or_self,
      Bool.false_eq_true, if_false, if_pos hlt]

/-! ## Segments of names -/

namespace Segment

/-- The segment that a name is: an index if the name reads as one, and a field otherwise. -/
inductive Names (name : String) : Segment → Prop where
  /-- The name reads as an index. -/
  | index {i : Nat} (h : ReadsAs name.toList i) : Names name (.index i)
  /-- The name does not read as any index. -/
  | field (h : ∀ i, ¬ ReadsAs name.toList i) : Names name (.field name)

/-- The segment of a name. -/
def ofName (name : String) : Segment := ofChars name.toList

theorem names_ofName (name : String) : Names name (ofName name) := by
  unfold ofName ofChars
  cases h : readIndex? name.toList with
  | some i => exact .index (readIndex?_eq_some_iff.1 h)
  | none =>
    have hfield : ∀ i, ¬ ReadsAs name.toList i := by
      intro i hi
      rw [readIndex?_eq_some_iff.2 hi] at h
      cases h
    rw [String.ofList_toList]
    exact .field hfield

end Segment

/-! ## Spellings -/

/-- A way to write a name in a path. -/
inductive Spelling where
  /-- As it is, behind a point if it is not the first. -/
  | dotted
  /-- In brackets. -/
  | bare
  /-- In brackets and quotes. -/
  | quoted (quote : Char)

namespace Spelling

/-- Whether a name may be written this way. -/
def Admits (name : List Char) : Spelling → Prop
  | dotted => name ≠ [] ∧ '.' ∉ name ∧ '[' ∉ name
  | bare => ']' ∉ name ∧ name.head? ≠ some '"' ∧ name.head? ≠ some '\''
  | quoted quote => (quote = '"' ∨ quote = '\'') ∧ quote ∉ name

/-- The name as it is written. -/
def chars (first : Bool) (name : List Char) : Spelling → List Char
  | dotted => if first then name else '.' :: name
  | bare => '[' :: (name ++ [']'])
  | quoted quote => '[' :: quote :: (name ++ [quote, ']'])

end Spelling

/-- A name with a way to write it. -/
structure SpelledName where
  /-- The name. -/
  name : String
  /-- How it is written. -/
  spelling : Spelling
  /-- The name may be written so. -/
  admits : spelling.Admits name.toList

/-- Names as they are written one behind the other, at the beginning of a path or behind one. -/
def writtenNames (first : Bool) : List SpelledName → List Char
  | [] => []
  | part :: parts => part.spelling.chars first part.name.toList ++ writtenNames false parts

/-- Names as a path in text. -/
def writtenPath (parts : List SpelledName) : String := String.ofList (writtenNames true parts)

/-! ## Reading a name -/

namespace Path

variable {current inner name rest : List Char} {quote : Char}

theorem parsePlain_point (rest : List Char) : parsePlain [] ('.' :: rest) = parsePlain [] rest := by
  simp [parsePlain, plainSegment]

theorem parsePlain_bracket (rest : List Char) :
    parsePlain [] ('[' :: rest) = parseBracket [] none rest := by
  simp [parsePlain, plainSegment]

/-- Characters other than points and brackets are taken into the current name. -/
theorem parsePlain_name (hpoint : '.' ∉ name) (hbracket : '[' ∉ name) (rest : List Char) :
    parsePlain current (name ++ rest) = parsePlain (current ++ name) rest := by
  induction name generalizing current with
  | nil => rw [List.append_nil, List.nil_append]
  | cons c name ih =>
    obtain ⟨hc, hpoint⟩ := not_or.1 (mt List.mem_cons.2 hpoint)
    obtain ⟨hc', hbracket⟩ := not_or.1 (mt List.mem_cons.2 hbracket)
    rw [List.cons_append, parsePlain, if_neg (Ne.symm hc), if_neg (Ne.symm hc'),
      ih hpoint hbracket, List.append_assoc, List.singleton_append]

/-- A point, a bracket or the end completes the current name. -/
theorem parsePlain_break (current : List Char)
    (h : ∀ c ∈ rest.head?, c = '.' ∨ c = '[') :
    parsePlain current rest = plainSegment current ++ parsePlain [] rest := by
  cases rest with
  | nil => simp [parsePlain, plainSegment]
  | cons c rest =>
    rcases h c rfl with rfl | rfl
    · rw [parsePlain_point, parsePlain, if_pos rfl]
    · rw [parsePlain_bracket, parsePlain, if_neg (by decide), if_pos rfl]

/-- A bracket takes everything up to the closing one, if no quote stands in front. -/
theorem parseBracket_bare (hclose : ']' ∉ name)
    (hquote : inner ≠ [] ∨ name.head? ≠ some '"' ∧ name.head? ≠ some '\'') (rest : List Char) :
    parseBracket inner none (name ++ ']' :: rest)
      = .ofChars (inner ++ name) :: parsePlain [] rest := by
  induction name generalizing inner with
  | nil => simp [parseBracket]
  | cons c name ih =>
    obtain ⟨hc, hclose⟩ := not_or.1 (mt List.mem_cons.2 hclose)
    have hplain : ((c = '"' || c = '\'') && inner.isEmpty) = false := by
      rcases hquote with hinner | ⟨hdouble, hsingle⟩
      · simp [hinner]
      · have hdouble : c ≠ '"' := fun h => hdouble (congrArg some h)
        have hsingle : c ≠ '\'' := fun h => hsingle (congrArg some h)
        simp [hdouble, hsingle]
    have hinner : inner ++ [c] ≠ [] := by simp
    simp only [List.cons_append, parseBracket, if_neg (Ne.symm hc), hplain, Bool.false_eq_true,
      if_false, ih hclose (.inl hinner), List.append_assoc, List.nil_append]

/-- Quotes in a bracket take everything up to the same quote. -/
theorem parseBracket_quoted (hquote : quote ∉ name) (rest : List Char) :
    parseBracket inner (some quote) (name ++ quote :: ']' :: rest)
      = .ofChars (inner ++ name) :: parsePlain [] rest := by
  induction name generalizing inner with
  | nil => simp [parseBracket]
  | cons c name ih =>
    obtain ⟨hc, hquote⟩ := not_or.1 (mt List.mem_cons.2 hquote)
    simp only [List.cons_append, parseBracket, if_neg (Ne.symm hc), ih hquote, List.append_assoc,
      List.nil_append]

/-! ## Reading a row of names -/

theorem head?_writtenNames (parts : List SpelledName) :
    ∀ c ∈ (writtenNames false parts).head?, c = '.' ∨ c = '[' := by
  intro c hc
  cases parts with
  | nil => cases hc
  | cons part parts =>
    obtain ⟨name, spelling, admits⟩ := part
    cases spelling with
    | dotted =>
      cases hc
      exact .inl rfl
    | bare | quoted quote =>
      cases hc
      exact .inr rfl

/-- A spelled name is read as its segment, whatever names follow. -/
theorem parsePlain_chars (first : Bool) (part : SpelledName) (parts : List SpelledName) :
    parsePlain [] (part.spelling.chars first part.name.toList ++ writtenNames false parts)
      = .ofName part.name :: parsePlain [] (writtenNames false parts) := by
  obtain ⟨name, spelling, admits⟩ := part
  cases spelling with
  | dotted =>
    obtain ⟨hne, hpoint, hbracket⟩ := admits
    have hname : parsePlain [] (name.toList ++ writtenNames false parts)
        = .ofName name :: parsePlain [] (writtenNames false parts) := by
      rw [parsePlain_name hpoint hbracket, List.nil_append,
        parsePlain_break _ (head?_writtenNames parts), plainSegment,
        if_neg (by simpa using hne)]
      rfl
    cases first with
    | true => exact hname
    | false => exact (parsePlain_point _).trans hname
  | bare =>
    obtain ⟨hclose, hquote⟩ := admits
    show parsePlain [] ('[' :: (name.toList ++ [']'] ++ writtenNames false parts)) = _
    rw [parsePlain_bracket, List.append_assoc]
    exact parseBracket_bare hclose (.inr hquote) _
  | quoted quote =>
    obtain ⟨hmark, hquote⟩ := admits
    show parsePlain [] ('[' :: quote :: (name.toList ++ [quote, ']'] ++ writtenNames false parts))
      = _
    have hopen : ∀ cs, parseBracket [] none (quote :: cs) = parseBracket [] (some quote) cs := by
      intro cs
      rcases hmark with rfl | rfl <;> simp [parseBracket]
    rw [parsePlain_bracket, hopen, List.append_assoc]
    exact parseBracket_quoted hquote _

theorem parsePlain_writtenNames (first : Bool) (parts : List SpelledName) :
    parsePlain [] (writtenNames first parts)
      = parts.map fun part => Segment.ofName part.name := by
  induction parts generalizing first with
  | nil => simp [writtenNames, parsePlain, plainSegment]
  | cons part parts ih => rw [writtenNames, parsePlain_chars, ih, List.map_cons]

/-- However names are written, the text is the path of their segments: of the index that a name
reads as, or of the field with the name. -/
theorem path_of_spellings (parts : List SpelledName) :
    ofText (writtenPath parts) = parts.map (fun part => Segment.ofName part.name)
      ∧ List.Forall₂ (fun part segment => Segment.Names part.name segment) parts
        (ofText (writtenPath parts)) := by
  have hpath : ofText (writtenPath parts) = parts.map fun part => Segment.ofName part.name := by
    rw [ofText, writtenPath, String.toList_ofList, parsePlain_writtenNames]
  refine ⟨hpath, ?_⟩
  rw [hpath, List.forall₂_map_right_iff, List.forall₂_same]
  exact fun part _ => Segment.names_ofName part.name

example : ofText "a['b.c'][+07][\"]\"].10"
    = [.field "a", .field "b.c", .index 7, .field "]", .index 10] := by decide

end Path

end PipeQuery
