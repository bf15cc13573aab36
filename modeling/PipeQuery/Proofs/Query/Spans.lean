import PipeQuery.Proofs.Number.Numeral
import PipeQuery.Query.Lexer
import Mathlib.Data.List.Induction

/-!
# Where tokens stand

The lexer takes a text apart: each token takes a *span* of it, the spans follow one
another, and what no span takes is white space.  `Covers` says this of the tokens of a
text from some offset on, and `lex_takes_text_apart` what comes of it for a whole
text.

A position is the line and the column of a character, counted from the beginning of the
text (`Position.ofOffset`).  The lexer does not count anew at each token but moves its
position along, which comes to the same (`Position.past_ofOffset`).

Where the lexer stops before the end of the text, the character it names is to blame
(`LexError.Marks`).  Digits never are: those that are taken together spell a number.
-/

namespace PipeQuery

/-! ## Offsets and positions -/

namespace Position

/-- The position of the character at an offset: one line more than there are ends of lines
before it, and one column more than there are characters since the last of these. -/
def ofOffset (text : List Char) (i : Nat) : Position :=
  ⟨(text.take i).count '\n' + 1, ((text.take i).reverse.takeWhile (· != '\n')).length + 1⟩

theorem past_start (cs : List Char) :
    start.past cs = ⟨cs.count '\n' + 1, (cs.reverse.takeWhile (· != '\n')).length + 1⟩ := by
  induction cs using List.reverseRecOn with
  | nil => rfl
  | append_singleton cs c ih =>
    rw [past_append, ih]
    by_cases hc : c = '\n'
    · simp [past, next, hc]
    · simp [past, next, hc]

theorem ofOffset_eq (text : List Char) (i : Nat) : ofOffset text i = start.past (text.take i) :=
  (past_start _).symm

/-- Moving a position along a text leads to the position at the offset behind it. -/
theorem past_ofOffset {text cs : List Char} {i : Nat} (h : cs <+: text.drop i) :
    (ofOffset text i).past cs = ofOffset text (i + cs.length) := by
  rw [ofOffset_eq, ofOffset_eq, ← past_append, List.take_add, ← List.prefix_iff_eq_take.1 h]

end Position

namespace Query

/-! ## Numbers

The digits that are taken together are a numeral. -/

/-- Behind a point there are digits only. -/
theorem isDigit_of_mem_digitsAt {cs : List Char} {c : Char} (h : c ∈ (digitsAt true cs).1) :
    c.isDigit = true := by
  induction cs with
  | nil => cases h
  | cons d rest ih =>
    rw [digitsAt] at h
    split at h
    next hd =>
      rcases List.mem_cons.1 h with rfl | h
      · exact hd
      · exact ih h
    next => simp at h

/-- From a digit on, a numeral is taken. -/
theorem exists_numeral_digitsAt {c : Char} (hc : c.isDigit = true) (rest : List Char) :
    ∃ x : Numeral, (digitsAt false (c :: rest)).1 = x.chars := by
  induction rest generalizing c with
  | nil =>
    refine ⟨⟨[c], [], by simp, by simpa using hc, by simp⟩, ?_⟩
    simp [digitsAt, hc, Numeral.chars, Numeral.fractionChars]
  | cons d rest ih =>
    have hstep : (digitsAt false (c :: d :: rest)).1 = c :: (digitsAt false (d :: rest)).1 := by
      rw [digitsAt, if_pos hc]
    by_cases hd : d.isDigit = true
    · obtain ⟨x, hx⟩ := ih hd
      refine ⟨⟨c :: x.whole, x.fraction, by simp, ?_, x.fraction_digits⟩, ?_⟩
      · exact List.forall_mem_cons.2 ⟨hc, x.whole_digits⟩
      · rw [hstep, hx]
        rfl
    · by_cases hpoint : d = '.' ∧ rest.head?.any Char.isDigit = true
      · -- a point with a digit behind it
        obtain ⟨rfl, hrest⟩ := hpoint
        refine ⟨⟨[c], (digitsAt true rest).1, by simp, by simpa using hc,
          fun e he => isDigit_of_mem_digitsAt he⟩, ?_⟩
        have hne : (digitsAt true rest).1 ≠ [] := by
          cases rest with
          | nil => cases hrest
          | cons e rest =>
            have he : e.isDigit = true := by simpa using hrest
            simp [digitsAt, he]
        rw [hstep, digitsAt, if_neg hd, if_pos (by simp [hrest])]
        simp [Numeral.chars, Numeral.fractionChars, hne]
      · -- the number ends
        refine ⟨⟨[c], [], by simp, by simpa using hc, by simp⟩, ?_⟩
        have hno : (d = '.' && !false && rest.head?.any Char.isDigit) = false := by
          simpa using hpoint
        rw [hstep, digitsAt, if_neg hd, hno]
        simp [Numeral.chars, Numeral.fractionChars]

/-- Digits that are taken together spell a number, with a minus or without. -/
theorem numberToken_digitsAt {c : Char} (hc : c.isDigit = true) (negative : Bool)
    (rest after : List Char) (fault : Fault) :
    numberToken (signChars negative ++ (digitsAt false (c :: rest)).1) after ≠ .error fault := by
  obtain ⟨x, hx⟩ := exists_numeral_digitsAt hc rest
  rw [hx, numberToken, Number.read?_signed_numeral]
  simp

/-! ## Faults -/

/-- What a fault is about stands at the beginning of a text, or behind it where an escape is at
fault. -/
inductive Fault.Occurs (cs : List Char) : Fault → Prop
  | unexpectedChar {c : Char} : cs.head? = some c → Occurs cs (.unexpectedChar c)
  | unterminatedString {quote : Char} :
    quote ∈ ['"', '\''] → cs.head? = some quote → Occurs cs .unterminatedString
  | invalidEscape {before : List Char} {c : Char} :
    escape? c = none → before ++ ['\\', c] <+: cs → Occurs cs (.invalidEscape c before)

/-- A text in quotes is not closed, or has a backslash before a character without an escape. -/
theorem scanQuoted_error {quote : Char} {before cs : List Char} {fault : Fault}
    (h : scanQuoted quote before cs = .error fault) :
    fault = .unterminatedString ∨ ∃ span c, fault = .invalidEscape c (before ++ span)
      ∧ escape? c = none ∧ span ++ ['\\', c] <+: cs := by
  fun_induction scanQuoted quote before cs generalizing fault with
  | case1 =>
    cases h
    exact Or.inl rfl
  | case2 => cases h
  | case3 =>
    cases h
    exact Or.inl rfl
  | case4 before e rest he =>
    cases h
    exact Or.inr ⟨[], e, by simp, he, by simp⟩
  | case5 before e rest x he _ ih =>
    rcases ih (map_eq_error_iff.1 h) with rfl | ⟨span, c, rfl, hc, hspan⟩
    · exact Or.inl rfl
    · exact Or.inr ⟨'\\' :: e :: span, c, by simp, hc, by simpa using hspan⟩
  | case6 before c rest _ _ ih =>
    rcases ih (map_eq_error_iff.1 h) with rfl | ⟨span, e, rfl, he, hspan⟩
    · exact Or.inl rfl
    · exact Or.inr ⟨c :: span, e, by simp, he, by simpa using hspan⟩

/-- What is at fault behind an opening quote occurs in the text with the quote. -/
theorem occurs_of_scanQuoted {quote : Char} {cs : List Char} {fault : Fault}
    (hquote : quote ∈ ['"', '\'']) (h : scanQuoted quote [quote] cs = .error fault) :
    fault.Occurs (quote :: cs) := by
  rcases scanQuoted_error h with rfl | ⟨span, c, rfl, hc, hspan⟩
  · exact .unterminatedString hquote rfl
  · exact .invalidEscape hc (by simpa using hspan)

/-- Where no token can be read, what is at fault occurs. -/
theorem occurs_of_scanToken {c : Char} {rest : List Char} {fault : Fault}
    (h : scanToken c rest = .error fault) : fault.Occurs (c :: rest) := by
  have hunexpected : ∀ {fault : Fault},
      (.error (.unexpectedChar c) : Except Fault (Token × List Char × List Char)) = .error fault →
        fault.Occurs (c :: rest) := by
    rintro _ ⟨⟩
    exact .unexpectedChar rfl
  unfold scanToken at h
  split at h
  · cases h
  · cases h
  · cases h
  · cases h
  · cases h
  · cases h
  · exact occurs_of_scanQuoted (by simp) (map_eq_error_iff.1 h)
  · exact occurs_of_scanQuoted (by simp) (map_eq_error_iff.1 h)
  · split at h
    · cases h
    · split at h
      next hd => exact absurd h (numberToken_digitsAt hd true _ _ fault)
      next => exact hunexpected h
    · exact hunexpected h
  · split at h
    next hd => exact absurd h (numberToken_digitsAt hd false _ _ fault)
    next =>
      split at h
      · cases h
      · exact hunexpected h

/-! ## Spans -/

/-- A run of characters, from one offset up to another. -/
structure Span where
  /-- The offset of its first character. -/
  start : Nat
  /-- The offset behind its last character. -/
  stop : Nat

/-- The characters of a span. -/
def Span.chars (s : Span) (text : List Char) : List Char :=
  (text.drop s.start).take (s.stop - s.start)

/-- From one offset up to another there is white space only. -/
structure Gap (text : List Char) (i j : Nat) : Prop where
  /-- It does not end before it begins. -/
  le : i ≤ j
  /-- Its characters are white space. -/
  blank : ∀ k, i ≤ k → k < j → ∀ c ∈ text[k]?, isBlank c = true

/-- A token at a position is what a span of a text is read as. -/
structure Takes (text : List Char) (s : Span) (p : Position) (t : Token) : Prop where
  /-- The span has a character. -/
  start_lt_stop : s.start < s.stop
  /-- The span lies in the text. -/
  stop_le : s.stop ≤ text.length
  /-- The position is that of its first character. -/
  position : p = .ofOffset text s.start
  /-- The token is scanned there, from these characters. -/
  scanned : ∃ c rest, text.drop s.start = c :: rest ∧ isBlank c = false
    ∧ scanToken c rest = .ok (t, s.chars text, text.drop s.stop)

/-- An error is about what stands at an offset, and names its position. -/
inductive LexError.Marks (text : List Char) (k : Nat) : LexError → Prop
  | unexpectedChar {c : Char} :
    text[k]? = some c → Marks text k (.unexpectedChar c (.ofOffset text k))
  | unterminatedString {quote : Char} :
    quote ∈ ['"', '\''] → text[k]? = some quote →
    Marks text k (.unterminatedString (.ofOffset text k))
  | invalidEscape {c : Char} :
    escape? c = none → text[k]? = some '\\' → text[k + 1]? = some c →
    Marks text k (.invalidEscape c (.ofOffset text k))

/-- The tokens of a text from the offset `i` on take these spans; what is before the offset
`reach` is taken apart then. -/
inductive Covers (text : List Char) : (i : Nat) → Tokens → List Span → (reach : Nat) → Prop
  | finished {i : Nat} :
    Gap text i text.length →
    Covers text i (.finished (.ofOffset text text.length)) [] text.length
  | failed {i j k : Nat} {e : LexError} :
    Gap text i j → j ≤ k → e.Marks text k → Covers text i (.failed e) [] j
  | token {i : Nat} {s : Span} {p : Position} {t : Token} {ts : Tokens} {spans : List Span}
    {reach : Nat} :
    Gap text i s.start → Takes text s p t → Covers text s.stop ts spans reach →
    Covers text i (.token p t ts) (s :: spans) reach

/-- What occurs at the beginning of the text from an offset on is marked there or behind it. -/
theorem Fault.Occurs.marks {text : List Char} {i : Nat} {fault : Fault}
    (h : fault.Occurs (text.drop i)) :
    ∃ k, i ≤ k ∧ (fault.toError (.ofOffset text i)).Marks text k := by
  cases h with
  | unexpectedChar hc =>
    rw [List.head?_drop] at hc
    exact ⟨i, Nat.le_refl i, .unexpectedChar hc⟩
  | unterminatedString hquote hc =>
    rw [List.head?_drop] at hc
    exact ⟨i, Nat.le_refl i, .unterminatedString hquote hc⟩
  | @invalidEscape before c hc hspan =>
    obtain ⟨rest, hrest⟩ := hspan
    have hat : ∀ d, text[i + d]? = (before ++ ['\\', c] ++ rest)[d]? := by
      intro d
      rw [hrest, List.getElem?_drop]
    have hbefore : before <+: text.drop i := ⟨['\\', c] ++ rest, by simp [← hrest]⟩
    refine ⟨i + before.length, Nat.le_add_right _ _, ?_⟩
    rw [Fault.toError, Position.past_ofOffset hbefore]
    refine .invalidEscape hc ?_ ?_
    · rw [hat]
      simp
    · rw [Nat.add_assoc, hat]
      simp

/-- White space from an offset on is a gap. -/
theorem gap_of_blank {text bs : List Char} {i : Nat} (h : bs <+: text.drop i)
    (hbs : ∀ b ∈ bs, isBlank b = true) : Gap text i (i + bs.length) := by
  obtain ⟨rest, hrest⟩ := h
  refine ⟨Nat.le_add_right _ _, fun k hk hlt c hc => hbs c ?_⟩
  obtain ⟨d, rfl⟩ := Nat.exists_eq_add_of_le hk
  have hd : d < bs.length := by omega
  rw [← List.getElem?_drop, ← hrest, List.getElem?_append_left hd] at hc
  exact List.mem_of_getElem? hc

/-- A token at an offset takes the span of its characters. -/
theorem takes_of_scanToken {text rest span after : List Char} {c : Char} {t : Token} {i : Nat}
    (hi : text.drop i = c :: rest) (hc : isBlank c = false)
    (h : scanToken c rest = .ok (t, span, after)) :
    Takes text ⟨i, i + span.length⟩ (.ofOffset text i) t
      ∧ text.drop (i + span.length) = after := by
  obtain ⟨heq, hne⟩ := scanToken_eq h
  have hpos : 0 < span.length := List.length_pos_iff.2 hne
  have hspan : (text.drop i).take span.length = span := by
    rw [hi, heq, List.take_left]
  have hafter : text.drop (i + span.length) = after := by
    rw [← List.drop_drop, hi, heq, List.drop_left]
  have hlength : i + span.length ≤ text.length := by
    have := congrArg List.length hspan
    rw [List.length_take, List.length_drop] at this
    omega
  refine ⟨⟨?_, hlength, rfl, c, rest, hi, hc, ?_⟩, hafter⟩
  · show i < i + span.length
    omega
  · show scanToken c rest = .ok (t, (text.drop i).take (i + span.length - i), _)
    rw [Nat.add_sub_cancel_left, hspan, hafter]
    exact h

/-- White space before another character is a gap, and the position goes along. -/
theorem exists_gap {text rest : List Char} {i : Nat} {c : Char}
    (h : (text.drop i).dropWhile isBlank = c :: rest) :
    ∃ j, Gap text i j ∧ text.drop j = c :: rest ∧ isBlank c = false
      ∧ (Position.ofOffset text i).past ((text.drop i).takeWhile isBlank) = .ofOffset text j := by
  have hprefix := List.takeWhile_prefix (l := text.drop i) isBlank
  have hc : isBlank c = false := by
    have hnot := List.head?_dropWhile_not isBlank (text.drop i)
    rw [h] at hnot
    exact hnot
  refine ⟨_, gap_of_blank hprefix fun b hb => List.mem_takeWhile_imp hb, ?_, hc,
    Position.past_ofOffset hprefix⟩
  have hsplit := List.prefix_iff_eq_append.1 hprefix
  rw [← List.drop_drop, ← h]
  exact List.append_cancel_left (hsplit.trans List.takeWhile_append_dropWhile.symm)

/-- The tokens of the text from an offset on cover it. -/
theorem exists_covers (text : List Char) (i : Nat) (hi : i ≤ text.length) :
    ∃ spans reach, Covers text i (lexFrom (.ofOffset text i) (text.drop i)) spans reach := by
  generalize hp : Position.ofOffset text i = p
  generalize hcs : text.drop i = cs
  fun_induction lexFrom p cs generalizing i with
  | case1 p cs hdrop =>
    -- white space to the end
    subst hp hcs
    have hblank := List.dropWhile_eq_nil_iff.1 hdrop
    have hend : i + (text.drop i).length = text.length := by
      rw [List.length_drop]
      omega
    have hgap := gap_of_blank List.prefix_rfl hblank
    have hpast := Position.past_ofOffset (List.prefix_refl (text.drop i))
    rw [hend] at hgap hpast
    rw [hpast]
    exact ⟨[], _, .finished hgap⟩
  | case2 p cs c rest hdrop start fault hscan =>
    subst hp hcs
    obtain ⟨j, hgap, hj, -, hstart⟩ := exists_gap hdrop
    have hoccurs : fault.Occurs (text.drop j) := hj ▸ occurs_of_scanToken hscan
    obtain ⟨k, hk, hmarks⟩ := hoccurs.marks
    refine ⟨[], j, .failed hgap hk ?_⟩
    rw [show start = .ofOffset text j from hstart]
    exact hmarks
  | case3 p cs c rest hdrop start t span after hscan ih =>
    subst hp hcs
    obtain ⟨j, hgap, hj, hc, hstart⟩ := exists_gap hdrop
    obtain ⟨htakes, hafter⟩ := takes_of_scanToken hj hc hscan
    have hstart : start = .ofOffset text j := hstart
    have hspan : span <+: text.drop j := by
      rw [hj, (scanToken_eq hscan).1]
      exact List.prefix_append span after
    obtain ⟨spans, reach, hcovers⟩ := ih (j + span.length) htakes.stop_le
      (by rw [hstart, Position.past_ofOffset hspan]) hafter
    rw [hstart] at hcovers ⊢
    exact ⟨_, reach, .token hgap htakes hcovers⟩

/-! ## Whole texts -/

namespace Tokens

/-- How often a token is asked for: once for each there is, and once more for the end or the
error. -/
def calls (ts : Tokens) : Nat := ts.size + 1

/-- The tokens with their positions. -/
def placed : Tokens → List (Position × Token)
  | .token p t rest => (p, t) :: rest.placed
  | _ => []

/-- Where the text ends, if the tokens go on to its end. -/
def end? : Tokens → Option Position
  | .finished p => some p
  | .failed _ => none
  | .token _ _ rest => rest.end?

end Tokens

/-- How the tokens of a text lie in it: each takes a span, and the spans with the white space
between them make up the text up to the offset `reach`. -/
structure Placement (text : List Char) (ts : Tokens) (spans : List Span) (reach : Nat) : Prop where
  /-- Each token takes its span, and is reported at its first character. -/
  taken : List.Forall₂ (fun s found => Takes text s found.1 found.2) spans ts.placed
  /-- The spans are in order and disjoint. -/
  ordered : spans.Pairwise fun s s' => s.stop ≤ s'.start
  /-- They are part of what is taken apart. -/
  stop_le : ∀ s ∈ spans, s.stop ≤ reach
  /-- What is taken apart is part of the text. -/
  reach_le : reach ≤ text.length
  /-- What no span takes is white space. -/
  blank : ∀ k < reach, (∀ s ∈ spans, k < s.start ∨ s.stop ≤ k) → ∀ c ∈ text[k]?, isBlank c = true
  /-- Tokens that go on to the end of the text take all of it apart, and end at its position. -/
  finished : ∀ p, ts.end? = some p → reach = text.length ∧ p = .ofOffset text text.length
  /-- An error is about a character that is not yet taken apart, and names its position. -/
  failed : ∀ e, ts.error? = some e → ∃ k, reach ≤ k ∧ k < text.length ∧ e.Marks text k

theorem LexError.Marks.lt {text : List Char} {k : Nat} {e : LexError} (h : e.Marks text k) :
    k < text.length := by
  cases h with
  | unexpectedChar hc => exact (List.getElem?_eq_some_iff.1 hc).1
  | unterminatedString _ hc => exact (List.getElem?_eq_some_iff.1 hc).1
  | invalidEscape _ hc _ => exact (List.getElem?_eq_some_iff.1 hc).1

namespace Covers

variable {text : List Char} {i reach : Nat} {ts : Tokens} {spans : List Span}

/-- Every token takes a character at least. -/
theorem size_le (h : Covers text i ts spans reach) : i + ts.size ≤ reach ∧ reach ≤ text.length := by
  induction h with
  | finished hgap => exact ⟨hgap.le, Nat.le_refl _⟩
  | failed hgap hle hmarks =>
    have := hmarks.lt
    exact ⟨hgap.le, by omega⟩
  | @token i s p t ts spans reach hgap htakes _ ih =>
    have hle := hgap.le
    have hlt := htakes.start_lt_stop
    obtain ⟨hsize, hreach⟩ := ih
    refine ⟨?_, hreach⟩
    show i + (ts.size + 1) ≤ reach
    omega

theorem bounds (h : Covers text i ts spans reach) :
    ∀ s ∈ spans, i ≤ s.start ∧ s.stop ≤ reach := by
  induction h with
  | finished => simp
  | failed => simp
  | @token i s p t ts spans reach hgap htakes hrest ih =>
    have hlt := htakes.start_lt_stop
    refine List.forall_mem_cons.2 ⟨⟨hgap.le, ?_⟩, fun s' hs' => ?_⟩
    · have := hrest.size_le.1
      omega
    · obtain ⟨hstart, hstop⟩ := ih s' hs'
      exact ⟨by have := hgap.le; omega, hstop⟩

theorem taken (h : Covers text i ts spans reach) :
    List.Forall₂ (fun s found => Takes text s found.1 found.2) spans ts.placed := by
  induction h with
  | finished => exact .nil
  | failed => exact .nil
  | token _ htakes _ ih => exact .cons htakes ih

theorem ordered (h : Covers text i ts spans reach) :
    spans.Pairwise fun s s' => s.stop ≤ s'.start := by
  induction h with
  | finished => exact .nil
  | failed => exact .nil
  | token _ _ hrest ih => exact .cons (fun s' hs' => (hrest.bounds s' hs').1) ih

theorem blank (h : Covers text i ts spans reach) {k : Nat} (hi : i ≤ k) (hk : k < reach)
    (hout : ∀ s ∈ spans, k < s.start ∨ s.stop ≤ k) : ∀ c ∈ text[k]?, isBlank c = true := by
  induction h with
  | finished hgap => exact hgap.blank k hi hk
  | failed hgap => exact hgap.blank k hi hk
  | token hgap _ _ ih =>
    obtain ⟨hs, hspans⟩ := List.forall_mem_cons.1 hout
    rcases hs with hbefore | hbehind
    · exact hgap.blank k hi hbefore
    · exact ih hbehind hk hspans

theorem finished_of_end? (h : Covers text i ts spans reach) {p : Position}
    (hp : ts.end? = some p) : reach = text.length ∧ p = .ofOffset text text.length := by
  induction h with
  | finished =>
    cases hp
    exact ⟨rfl, rfl⟩
  | failed => cases hp
  | token _ _ _ ih => exact ih hp

theorem marks_of_error? (h : Covers text i ts spans reach) {e : LexError}
    (he : ts.error? = some e) : ∃ k, reach ≤ k ∧ k < text.length ∧ e.Marks text k := by
  induction h with
  | finished => cases he
  | @failed i j k e' _ hle hmarks =>
    cases he
    exact ⟨k, hle, hmarks.lt, hmarks⟩
  | token _ _ _ ih => exact ih he

theorem placement (h : Covers text 0 ts spans reach) : Placement text ts spans reach where
  taken := h.taken
  ordered := h.ordered
  stop_le s hs := (h.bounds s hs).2
  reach_le := h.size_le.2
  blank k hk hout := h.blank (Nat.zero_le k) hk hout
  finished _ hp := h.finished_of_end? hp
  failed _ he := h.marks_of_error? he

end Covers

/-- The tokens of a text are found in no more steps than the text has characters, and one.  They
take it apart in order, each at the position where it begins, up to the end or to what is wrong
with it; digits never are. -/
theorem lex_takes_text_apart (text : String) :
    (lex text).calls ≤ text.length + 1
      ∧ (∃ spans reach, Placement text.toList (lex text) spans reach)
      ∧ ∀ digits p, (lex text).error? ≠ some (.invalidNumber digits p) := by
  obtain ⟨spans, reach, hcovers⟩ := exists_covers text.toList 0 (Nat.zero_le _)
  have hcovers : Covers text.toList 0 (lex text) spans reach := hcovers
  have hplacement := hcovers.placement
  refine ⟨?_, ⟨spans, reach, hplacement⟩, fun digits p he => ?_⟩
  · have hsize := hcovers.size_le
    rw [String.length_toList] at hsize
    show (lex text).size + 1 ≤ text.length + 1
    omega
  · obtain ⟨k, -, -, hmarks⟩ := hplacement.failed _ he
    cases hmarks

/-- A line goes on inside quotes, and the next token is on the line where these close. -/
example : (lex "echo '\n'\n #x").placed
    = [(⟨1, 1⟩, .identifier "echo"), (⟨1, 6⟩, .string "\n"), (⟨3, 2⟩, .comment "x")] := by cbv

end Query

end PipeQuery
