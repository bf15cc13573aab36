import PipeQuery.Proofs.Query.Lexemes

/-!
# Tokens as text

Every token has a *spelling*: numbers are written out without an exponent, texts
stand in their quotes with the quote and backslashes escaped, and a comment goes
to the end of its line.  `write` puts spellings one after the other with what has
to stand or by custom stands between them, and `lexes_write` says that the tokens
of the text are those that were written.

Not every token is spelled: an identifier or a flag has to be a name, a comment
has to be trimmed and on one line, and no digits stand for `nan`.
-/

namespace PipeQuery

/-! ## Numbers -/

namespace Number

/-- A number that some plain decimal text is read as. -/
def IsSpelled (n : Number) : Prop :=
  ∃ (negative : Bool) (x : Numeral), read? (signChars negative ++ x.chars) = some n

/-- A number as a plain decimal text.  No text is too long, so that infinities have one. -/
def spelling : Number → List Char
  | .infinite negative => signChars negative ++ decimalChars (10 ^ 309)
  | n => n.charsIn .plain

theorem magnitude?_beyond : (⟨10 ^ 309, 0⟩ : Digits).magnitude? = none := by decide +kernel

/-- The spelling of a number that some text spells is a plain numeral behind a sign. -/
theorem IsSpelled.exists_numeral {n : Number} (h : n.IsSpelled) :
    ∃ (negative : Bool) (x : Numeral),
      n.spelling = signChars negative ++ x.chars ∧ read? n.spelling = some n := by
  cases n with
  | nan =>
    obtain ⟨negative, x, hread⟩ := h
    rw [read?_signed_numeral, ofDigits] at hread
    cases hx : x.digits.magnitude? <;> simp [hx, ofMagnitude?] at hread
  | infinite negative =>
    have hchars : (infinite negative).spelling
        = signChars negative ++ (Numeral.ofNat (10 ^ 309)).chars := by
      rw [Numeral.chars_ofNat]
      rfl
    refine ⟨negative, _, hchars, ?_⟩
    rw [hchars, read?_signed_numeral, Numeral.digits_ofNat, ofDigits, magnitude?_beyond]
    rfl
  | finite negative m =>
    obtain ⟨x, -, hchars, -⟩ := charsIn_plain_finite negative m
    exact ⟨negative, x, hchars, read?_charsIn_plain negative m⟩

/-- Every number is spelled by some text, but for `nan`. -/
theorem isSpelled_iff {n : Number} : n.IsSpelled ↔ n ≠ .nan := by
  constructor
  · rintro ⟨negative, x, hread⟩ rfl
    rw [read?_signed_numeral, ofDigits] at hread
    cases hx : x.digits.magnitude? <;> simp [hx, ofMagnitude?] at hread
  · intro h
    cases n with
    | nan => exact absurd rfl h
    | infinite negative =>
      refine ⟨negative, .ofNat (10 ^ 309), ?_⟩
      rw [read?_signed_numeral, Numeral.digits_ofNat, ofDigits, magnitude?_beyond]
      rfl
    | finite negative m =>
      obtain ⟨x, -, hchars, -⟩ := charsIn_plain_finite negative m
      exact ⟨negative, x, hchars ▸ read?_charsIn_plain negative m⟩

end Number

namespace Query

/-! ## Spellings -/

/-- A text as it stands in quotes. -/
def escaped (quote : Char) (cs : List Char) : List Char :=
  cs.flatMap fun c => if c = quote || c = '\\' then ['\\', c] else [c]

/-- A token as text. -/
def Token.spelling : Token → List Char
  | .number n => n.spelling
  | .field path => '"' :: escaped '"' path.toList ++ ['"']
  | .string text => '\'' :: escaped '\'' text.toList ++ ['\'']
  | .boolean b => if b then ['t', 'r', 'u', 'e'] else ['f', 'a', 'l', 's', 'e']
  | .null => ['n', 'u', 'l', 'l']
  | .identifier name => name.toList
  | .flag name => '-' :: '-' :: name.toList
  | .comment text => '#' :: ' ' :: text.toList
  | .pipe => ['|']
  | .comma => [',']
  | .equals => ['=']
  | .openParen => ['(']
  | .closeParen => [')']

/-- The spelling of a token is scanned as the token. -/
structure Token.Spelled (t : Token) : Prop where
  /-- It begins with a character that is not white space, and is taken as a whole. -/
  scanned : ∃ c rest, t.spelling = c :: rest ∧ isBlank c = false
    ∧ scanToken c rest = .ok (t, c :: rest, [])

instance (c : Char) (rest : List Char) (found : Token × List Char × List Char) :
    Decidable (scanToken c rest = .ok found) :=
  match scanToken c rest with
  | .error _ => .isFalse (by simp)
  | .ok found' =>
    if h : found' = found then .isTrue (by rw [h]) else .isFalse (by simpa using h)

theorem Token.spelled_iff {t : Token} {c : Char} {rest : List Char} (h : t.spelling = c :: rest) :
    t.Spelled ↔ isBlank c = false ∧ scanToken c rest = .ok (t, c :: rest, []) := by
  constructor
  · rintro ⟨c', rest', h', hscan⟩
    cases h.symm.trans h'
    exact hscan
  · intro hscan
    exact ⟨c, rest, h, hscan⟩

instance (t : Token) : Decidable t.Spelled :=
  match h : t.spelling with
  | [] => .isFalse fun ⟨_, _, h', _⟩ => List.cons_ne_nil _ _ (h'.symm.trans h)
  | _ :: _ => decidable_of_iff _ (Token.spelled_iff h).symm

/-- A text that is trimmed and has no second line. -/
def IsRemark (x : String) : Prop := trimChars x.toList = x.toList ∧ '\n' ∉ x.toList

/-- What is escaped is closed by the first quote behind it. -/
theorem scanQuoted_escaped {quote : Char} (hquote : '\\' ≠ quote)
    (he : escape? quote = some quote) (before cs rest : List Char) :
    scanQuoted quote before (escaped quote cs ++ quote :: rest)
      = .ok (cs, escaped quote cs ++ [quote], rest) := by
  induction cs generalizing before with
  | nil => exact scanQuoted_close quote before rest
  | cons c cs ih =>
    have hcons : escaped quote (c :: cs)
        = (if c = quote || c = '\\' then ['\\', c] else [c]) ++ escaped quote cs :=
      List.flatMap_cons
    rw [hcons]
    by_cases hc : c = quote ∨ c = '\\'
    · have hesc : escape? c = some c := by
        rcases hc with rfl | rfl
        · exact he
        · rfl
      simp only [hc, Bool.or_eq_true, decide_eq_true_eq, if_true, List.cons_append, List.nil_append]
      rw [scanQuoted_escape _ _ hquote hesc, ih]
      rfl
    · obtain ⟨hne, hback⟩ := not_or.1 hc
      simp only [hc, Bool.or_eq_true, decide_eq_true_eq, if_false, List.cons_append,
        List.nil_append]
      rw [scanQuoted_plain _ _ hne hback, ih]
      rfl

namespace Token

theorem spelled_field (path : String) : (Token.field path).Spelled := by
  have hscan : scanQuoted '"' ['"'] (escaped '"' path.toList ++ ['"'])
      = .ok (path.toList, escaped '"' path.toList ++ ['"'], []) :=
    scanQuoted_escaped (by decide) rfl _ _ _
  refine ⟨_, _, rfl, by decide, map_eq_ok_iff.2 ⟨_, hscan, ?_⟩⟩
  simp only [String.ofList_toList]
  rfl

theorem spelled_string (text : String) : (Token.string text).Spelled := by
  have hscan : scanQuoted '\'' ['\''] (escaped '\'' text.toList ++ ['\''])
      = .ok (text.toList, escaped '\'' text.toList ++ ['\''], []) :=
    scanQuoted_escaped (by decide) rfl _ _ _
  refine ⟨_, _, rfl, by decide, map_eq_ok_iff.2 ⟨_, hscan, ?_⟩⟩
  simp only [String.ofList_toList]
  rfl

theorem spelled_comment {text : String} (h : IsRemark text) : (Token.comment text).Spelled := by
  obtain ⟨htrim, hline⟩ := h
  have hblank : trimChars (' ' :: text.toList) = text.toList := htrim
  have hchars : '\n' ∉ ' ' :: text.toList := by simpa using hline
  have hscan := scanToken_comment hchars
  rw [hblank, String.ofList_toList] at hscan
  exact ⟨_, _, rfl, by decide, hscan⟩

/-! Digits are scanned as a number, whose point is taken with the digits behind it. -/

theorem digitsAt_digits {ds : List Char} (hd : ∀ c ∈ ds, c.isDigit = true) (seenPoint : Bool)
    (rest : List Char) :
    digitsAt seenPoint (ds ++ rest)
      = (ds ++ (digitsAt seenPoint rest).1, (digitsAt seenPoint rest).2) := by
  induction ds with
  | nil => rfl
  | cons d ds ih =>
    have hd' : d.isDigit = true := hd d List.mem_cons_self
    rw [List.cons_append, digitsAt, if_pos hd', ih fun c hc => hd c (List.mem_cons_of_mem _ hc)]
    rfl

theorem digitsAt_fractionChars (x : Numeral) :
    digitsAt false x.fractionChars = (x.fractionChars, []) := by
  unfold Numeral.fractionChars
  split
  · rfl
  · rename_i hne
    obtain ⟨d, ds, hf⟩ := List.exists_cons_of_ne_nil hne
    have hd : d.isDigit = true := x.fraction_digits d (by simp [hf])
    have htail := digitsAt_digits x.fraction_digits true []
    rw [List.append_nil] at htail
    rw [digitsAt, htail, hf]
    simp [hd, digitsAt]

theorem digitsAt_chars (x : Numeral) : digitsAt false x.chars = (x.chars, []) := by
  unfold Numeral.chars
  rw [digitsAt_digits x.whole_digits, digitsAt_fractionChars]

/-- What begins with a digit is scanned as a number. -/
theorem scanToken_digit {c : Char} (hc : c.isDigit = true) (rest : List Char) :
    scanToken c rest
      = numberToken (digitsAt false (c :: rest)).1 (digitsAt false (c :: rest)).2 := by
  unfold scanToken
  split
  all_goals first | cases hc | exact if_pos hc

/-- A minus before a digit goes with the number. -/
theorem scanToken_minus_digit {c : Char} (hc : c.isDigit = true) (rest : List Char) :
    scanToken '-' (c :: rest)
      = numberToken ('-' :: (digitsAt false (c :: rest)).1) (digitsAt false (c :: rest)).2 := by
  simp only [scanToken]
  split
  · rename_i heq
    obtain rfl := (List.cons.inj heq).1
    cases hc
  · rename_i heq
    cases heq
    exact if_pos hc
  · rename_i heq
    cases heq

theorem numberToken_of_read? {n : Number} {span : List Char} (h : Number.read? span = some n)
    (after : List Char) : numberToken span after = .ok (.number n, span, after) := by
  rw [numberToken, h]

theorem spelled_number {n : Number} (h : n.IsSpelled) : (Token.number n).Spelled := by
  obtain ⟨negative, x, hchars, hread⟩ := h.exists_numeral
  obtain ⟨c, rest, hx, hc⟩ := x.exists_chars_eq
  have hdigits := digitsAt_chars x
  rw [hchars, hx] at hread
  rw [hx] at hchars hdigits
  cases negative with
  | false =>
    have hsp : (Token.number n).spelling = c :: rest := hchars
    refine (spelled_iff hsp).2 ⟨isBlank_of_isDigit hc, ?_⟩
    rw [scanToken_digit hc, hdigits]
    exact numberToken_of_read? hread []
  | true =>
    have hsp : (Token.number n).spelling = '-' :: c :: rest := hchars
    refine (spelled_iff hsp).2 ⟨by decide, ?_⟩
    rw [scanToken_minus_digit hc, hdigits]
    exact numberToken_of_read? hread []

end Token

/-! ## Texts of several tokens -/

/-- Whether no space is put before a token or the end. -/
def standsClose : Option Token → Bool
  | none | some .openParen | some .closeParen | some .comma | some .equals => true
  | _ => false

/-- What stands between a token and the next.  A comment ends with its line. -/
def gap (t : Token) (next : Option Token) : List Char :=
  match t with
  | .comment _ => ['\n']
  | .openParen | .equals => []
  | _ => if standsClose next then [] else [' ']

/-- Tokens as text. -/
def write : List Token → List Char
  | [] => []
  | t :: ts => t.spelling ++ gap t ts.head? ++ write ts

/-- A gap is white space. -/
theorem isBlank_gap (t : Token) (next : Option Token) : ∀ b ∈ gap t next, isBlank b = true := by
  unfold gap
  split
  · exact List.forall_mem_singleton.2 (by decide)
  · simp
  · simp
  · split
    · simp
    · exact List.forall_mem_singleton.2 (by decide)

/-- A mark that stands close to what is before it is a delimiter. -/
theorem delimited_write {ts : List Token} (h : standsClose ts.head? = true) :
    Delimited (write ts) := by
  cases ts with
  | nil =>
    intro d hd
    cases hd
  | cons t ts =>
    cases t with
    | openParen => exact delimited_cons (by decide) _
    | closeParen => exact delimited_cons (by decide) _
    | comma => exact delimited_cons (by decide) _
    | equals => exact delimited_cons (by decide) _
    | _ => cases h

/-- No token goes on into the gap and the text behind it. -/
theorem follows_gap (t : Token) (ts : List Token) : Follows t (gap t ts.head? ++ write ts) := by
  unfold gap
  split
  · exact follows_newline _ _
  · trivial
  · trivial
  · rename_i hcomment _ _
    refine follows_of_delimited hcomment ?_
    split
    · rename_i hclose
      exact delimited_write hclose
    · exact delimited_cons (by decide) _

/-- The tokens of a written text are those that were written. -/
theorem lexes_write {ts : List Token} (h : ∀ t ∈ ts, t.Spelled) : Lexes (write ts) ts := by
  induction ts with
  | nil => exact .blank (by simp [write])
  | cons t ts ih =>
    have hrest := Lexes.blank_append (isBlank_gap t ts.head?)
      (ih fun u hu => h u (List.mem_cons_of_mem _ hu))
    obtain ⟨c, rest, hspelling, hc, hscan⟩ := h t List.mem_cons_self
    rw [write, List.append_assoc, hspelling]
    exact .cons hc hscan (follows_gap t ts) hrest

end Query

end PipeQuery
