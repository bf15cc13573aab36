import PipeQuery.Proofs.Expr.Printing
import PipeQuery.Proofs.Number.Numeral

/-!
# Printed trees as tokens

`Ahead.Leads n ts s r` says that what is ahead begins with the tokens `ts` and that
`r` is behind them.  Each word is scanned as its token if a space or the end
follows, so that the words of a tree lead to the end by their tokens
(`leads_spaced`).  A name needs no space: it is scanned wherever no other character of
a name follows (`IsName.scan`).
-/

namespace PipeQuery.Expr

/-- What is ahead begins with these tokens, and `r` is behind them. -/
inductive Ahead.Leads (n : Nat) : List Token → Ahead → Ahead → Prop
  | here {r : Ahead} : Leads n [] r r
  | token {t : Token} {ts : List Token} {source behind : List Char} {s r : Ahead} :
    next n behind = .ok s → Leads n ts s r → Leads n (t :: ts) (.token t source behind) r

/-- The token that a word is. -/
def Word.read : Word → Token
  | .plain name => .name name
  | .token t => t

/-- A text that is empty or begins with a space. -/
def Spaced (ds : List Char) : Prop := ds = [] ∨ ∃ es, ds = ' ' :: es

/-- A word is scanned as its token where nothing or a space follows. -/
structure Word.Spelled (w : Word) : Prop where
  /-- It begins with a character that is skipped neither by itself nor with the next, and is
  taken as a whole. -/
  scanned : ∃ c rest, w.chars = c :: rest ∧ isBlank c = false ∧ (c ≠ '/' ∨ rest = [])
    ∧ ∀ n ds, Spaced ds → scan n c (rest ++ ds) = .ok (w.read, ds)

/-! ## Words in a text -/

theorem spaced_cons_spaced (ws : List Word) (w : Word) :
    ∃ ds, Spaced ds ∧ spaced (w :: ws) = w.chars ++ ds
      ∧ ((ws = [] ∧ ds = []) ∨ ds = ' ' :: spaced ws) := by
  cases ws with
  | nil => exact ⟨[], Or.inl rfl, by simp [spaced], Or.inl ⟨rfl, rfl⟩⟩
  | cons v rest => exact ⟨_, Or.inr ⟨_, rfl⟩, rfl, Or.inr rfl⟩

/-- Nothing is skipped in front of a character that is neither white space nor a slash. -/
theorem skip_of_not_blank {c : Char} (hc : isBlank c = false) (hslash : c ≠ '/')
    (rest : List Char) : skip false (c :: rest) = c :: rest := by
  cases rest with
  | nil => simp [skip, hc]
  | cons d rest => simp [skip, hc, hslash]

/-- A token is ahead where it begins with such a character. -/
theorem next_of_scan {n : Nat} {c : Char} {rest behind : List Char} {t : Token}
    (hc : isBlank c = false) (hslash : c ≠ '/') (h : scan n c rest = .ok (t, behind)) :
    next n (c :: rest) = .ok (.token t (c :: rest) behind) := by
  rw [next, skip_of_not_blank hc hslash]
  simp only [h]
  rfl

/-- Nothing is skipped in front of a word. -/
theorem skip_word {c : Char} {rest ds : List Char} (hc : isBlank c = false)
    (hslash : c ≠ '/' ∨ rest = []) (hds : Spaced ds) :
    skip false (c :: rest ++ ds) = c :: rest ++ ds := by
  rcases hslash with hslash | rfl
  · exact skip_of_not_blank hc hslash _
  · rcases hds with rfl | ⟨es, rfl⟩
    · simp [skip, hc]
    · simp [skip, hc]

/-- A space is skipped. -/
theorem next_space (n : Nat) (cs : List Char) : next n (' ' :: cs) = next n cs := by
  have hskip : skip false (' ' :: cs) = skip false cs := by
    cases cs with
    | nil => decide
    | cons c cs =>
      have hblank : isBlank ' ' = true := by decide
      simp [skip, hblank]
  rw [next, next, hskip]

/-- The text of spelled words is their tokens to its end. -/
theorem leads_spaced (n : Nat) {ws : List Word} (h : ∀ w ∈ ws, w.Spelled) :
    ∃ s, next n (spaced ws) = .ok s ∧ Ahead.Leads n (ws.map Word.read) s .finished := by
  induction ws with
  | nil => exact ⟨.finished, rfl, .here⟩
  | cons w ws ih =>
    obtain ⟨s, hnext, hs⟩ := ih fun v hv => h v (List.mem_cons_of_mem _ hv)
    obtain ⟨c, rest, hchars, hc, hslash, hscan⟩ := h w List.mem_cons_self
    obtain ⟨ds, hds, htext, hrest⟩ := spaced_cons_spaced ws w
    have hskip := skip_word hc hslash hds
    have hbehind : next n ds = .ok s := by
      rcases hrest with ⟨rfl, rfl⟩ | rfl
      · exact hnext
      · rw [next_space]
        exact hnext
    refine ⟨.token w.read (c :: (rest ++ ds)) ds, ?_, .token hbehind hs⟩
    rw [htext, hchars, next, hskip]
    simp only [List.cons_append, hscan n ds hds]
    rfl

/-! ## Signs -/

theorem double?_space (c : Char) : double? c ' ' = none := by
  unfold double?
  split <;> simp_all

/-- No sign of two characters goes on into a space. -/
theorem Spaced.double? {ds : List Char} (h : Spaced ds) (c : Char) :
    ∀ d ∈ ds.head?, double? c d = none := by
  intro d hd
  rcases h with rfl | ⟨es, rfl⟩
  · cases hd
  · cases hd
    exact double?_space c

/-- A sign of one character is scanned as such if it is no sign with the next one. -/
theorem scan_single {n : Nat} {c : Char} {t : Token} {ds : List Char} (hc : single? c = some t)
    (hds : ∀ d ∈ ds.head?, double? c d = none) : scan n c ds = .ok (t, ds) := by
  unfold scan
  cases ds with
  | nil => simp [hc]
  | cons d ds => simp [hc, hds d rfl]

theorem scan_double {n : Nat} {c d : Char} {t : Token} (hcd : double? c d = some t)
    (ds : List Char) : scan n c (d :: ds) = .ok (t, ds) := by
  simp [scan, hcd]

theorem spelled_single {t : Token} {c : Char} (hchars : t.spelling = [c])
    (hc : single? c = some t) (hblank : isBlank c = false) : (Word.token t).Spelled :=
  ⟨c, [], hchars, hblank, Or.inr rfl, fun _ _ hds => scan_single hc (hds.double? c)⟩

theorem spelled_double {t : Token} {c d : Char} (hchars : t.spelling = [c, d])
    (hcd : double? c d = some t) (hblank : isBlank c = false) (hslash : c ≠ '/') :
    (Word.token t).Spelled :=
  ⟨c, [d], hchars, hblank, Or.inl hslash, fun _ ds _ => scan_double hcd ds⟩

/-! ## Names -/

theorem Spaced.not_nameChar {ds : List Char} (h : Spaced ds) :
    ∀ d ∈ ds.head?, isNameChar d = false := by
  intro d hd
  rcases h with rfl | ⟨es, rfl⟩
  · cases hd
  · cases hd
    decide

/-- What begins with neither a sign nor two is a word. -/
theorem scan_word {n : Nat} {c : Char} {rest : List Char} (hc : single? c = none)
    (hd : ∀ d ∈ rest.head?, double? c d = none) : scan n c rest = scanWord n c rest := by
  unfold scan
  cases rest with
  | nil => simp [hc]
  | cons d rest => simp [hc, hd d rfl]

/-- Only these characters begin signs of two characters. -/
theorem double?_eq_none {c : Char} (hc : c ∉ ['!', '<', '>', '$']) (d : Char) :
    double? c d = none := by
  unfold double?
  split <;> simp_all

/-- White space is no sign. -/
theorem isBlank_of_single? {c : Char} {t : Token} (hc : single? c = some t) :
    isBlank c = false := by
  unfold single? at hc
  split at hc <;> first | rfl | cases hc

/-- A sign of one character that begins neither a sign of two nor a comment is ahead where it
stands. -/
theorem next_sign (n : Nat) (c : Char) {t : Token} (hc : single? c = some t)
    (hsign : c ∉ ['!', '<', '>', '$']) (hslash : c ≠ '/') (ds : List Char) :
    next n (c :: ds) = .ok (.token t (c :: ds) ds) :=
  next_of_scan (isBlank_of_single? hc) hslash (scan_single hc fun d _ => double?_eq_none hsign d)

/-- A character that a name may begin with. -/
def IsNameStart (c : Char) : Prop := isAlphabetic c = true ∨ c = '_'

instance (c : Char) : Decidable (IsNameStart c) :=
  inferInstanceAs (Decidable (isAlphabetic c = true ∨ c = '_'))

namespace IsNameStart

variable {c : Char}

theorem isNameChar (h : IsNameStart c) : isNameChar c = true := by
  rcases h with h | rfl
  · simp [Expr.isNameChar, isAlphanumeric, h]
  · decide

theorem isBlank (h : IsNameStart c) : isBlank c = false := by
  rcases h with h | rfl
  · exact isBlank_of_isAlphabetic h
  · decide

theorem isDigit (h : IsNameStart c) : c.isDigit = false := by
  rcases h with h | rfl
  · rw [Bool.eq_false_iff]
    intro hdigit
    rw [isAlphabetic_of_isDigit hdigit] at h
    cases h
  · decide

theorem ne (h : IsNameStart c) {d : Char} (hd : Expr.isNameChar d = false) : c ≠ d := by
  rintro rfl
  rw [h.isNameChar] at hd
  cases hd

/-- No sign begins like a name. -/
theorem single? (h : IsNameStart c) : single? c = none := by
  have hc := h.isNameChar
  unfold Expr.single?
  split <;> first | rfl | cases hc

theorem scanWord (h : IsNameStart c) (n : Nat) (rest : List Char) :
    scanWord n c rest = .ok (.name (String.ofList (c :: rest.takeWhile Expr.isNameChar)),
      rest.dropWhile Expr.isNameChar) := by
  have hstart : (isAlphabetic c || decide (c = '_')) = true := by
    simpa [IsNameStart] using h
  rw [Expr.scanWord]
  simp only [h.ne (d := '"') (by decide), h.ne (d := '\'') (by decide),
    h.ne (d := '\x60') (by decide), h.ne (d := '$') (by decide), h.isDigit, hstart, decide_false,
    Bool.or_self, Bool.false_eq_true, if_false, if_true]

end IsNameStart

/-- A text that is scanned as a name: a letter or an underscore, and letters, digits and
underscores behind it. -/
structure IsName (name : String) : Prop where
  /-- What it begins with. -/
  start : ∃ c rest, name.toList = c :: rest ∧ IsNameStart c
  /-- What it is made of. -/
  chars : ∀ c ∈ name.toList, isNameChar c = true

theorem isName_iff {name : String} :
    IsName name ↔ name.toList.head?.any (fun c => decide (IsNameStart c)) = true
      ∧ name.toList.all isNameChar = true := by
  rw [List.all_eq_true]
  constructor
  · rintro ⟨⟨c, rest, hname, hc⟩, hchars⟩
    exact ⟨by simpa [hname] using hc, hchars⟩
  · rintro ⟨hhead, hchars⟩
    cases hname : name.toList with
    | nil => simp [hname] at hhead
    | cons c rest => exact ⟨⟨c, rest, hname, by simpa [hname] using hhead⟩, hchars⟩

instance (name : String) : Decidable (IsName name) := decidable_of_iff _ isName_iff.symm

/-- A name is scanned as such where no other character of a name follows. -/
theorem IsName.scan {name : String} (h : IsName name) :
    ∃ c rest, name.toList = c :: rest ∧ IsNameStart c
      ∧ ∀ n ds, (∀ d ∈ ds.head?, isNameChar d = false) →
        scan n c (rest ++ ds) = .ok (.name name, ds) := by
  obtain ⟨c, rest, hname, hc⟩ := h.start
  refine ⟨c, rest, hname, hc, fun n ds hds => ?_⟩
  have hchars := h.chars
  rw [hname] at hchars
  have hsign : c ∉ ['!', '<', '>', '$'] := by
    simp only [List.mem_cons, List.not_mem_nil, or_false, not_or]
    exact ⟨hc.ne (by decide), hc.ne (by decide), hc.ne (by decide), hc.ne (by decide)⟩
  have hrest : ∀ d ∈ rest, isNameChar d = true := fun d hd => hchars d (List.mem_cons_of_mem _ hd)
  rw [scan_word hc.single? fun d _ => double?_eq_none hsign d, hc.scanWord,
    takeWhile_run hrest hds, dropWhile_run hrest hds, ← hname, String.ofList_toList]

/-- The words of operators and literals. -/
def reserved : List String := ["or", "and", "in", "true", "false", "null"]

theorem isName_of_reserved {name : String} (h : name ∈ reserved) : IsName name := by
  simp only [reserved, List.mem_cons, List.not_mem_nil, or_false] at h
  rcases h with rfl | rfl | rfl | rfl | rfl | rfl
  all_goals decide

/-- A word of an operator or a literal is scanned as a name. -/
theorem spelled_plain {name : String} (h : name ∈ reserved) : (Word.plain name).Spelled := by
  obtain ⟨c, rest, hname, hc, hscan⟩ := (isName_of_reserved h).scan
  exact ⟨c, rest, hname, hc.isBlank, Or.inl (hc.ne (by decide)),
    fun n ds hds => hscan n ds hds.not_nameChar⟩

/-- A name after a dollar sign ends before any other character but a dollar sign. -/
theorem scan_variable {n : Nat} {x : String} {ds : List Char}
    (hx : ∀ c ∈ x.toList, isNameChar c = true)
    (hds : ∀ d ∈ ds.head?, isNameChar d = false ∧ d ≠ '$') :
    scan n '$' (x.toList ++ ds) = .ok (.variable x, ds) := by
  have hhead : ∀ d ∈ (x.toList ++ ds).head?, double? '$' d = none := by
    intro d hd
    have hne : d ≠ '$' := by
      rintro rfl
      cases hcs : x.toList with
      | nil =>
        rw [hcs] at hd
        exact (hds '$' hd).2 rfl
      | cons c cs =>
        rw [hcs] at hd
        cases hd
        exact absurd (hx '$' (by simp [hcs])) (by decide)
    unfold double?
    split <;> simp_all
  have hword : scanWord n '$' (x.toList ++ ds)
      = .ok (.variable (nameAt (x.toList ++ ds)).1, (nameAt (x.toList ++ ds)).2) := rfl
  have hend : ∀ d ∈ ds.head?, isNameChar d = false := fun d hd => (hds d hd).1
  rw [scan_word rfl hhead, hword, nameAt, takeWhile_run hx hend, dropWhile_run hx hend,
    String.ofList_toList]

theorem spelled_variable {x : String} (hx : ∀ c ∈ x.toList, isNameChar c = true) :
    (Word.token (.variable x)).Spelled := by
  refine ⟨'$', x.toList, rfl, by decide, Or.inl (by decide), fun n ds hds => scan_variable hx ?_⟩
  intro d hd
  refine ⟨hds.not_nameChar d hd, ?_⟩
  rcases hds with rfl | ⟨es, rfl⟩
  · cases hd
  · cases hd
    decide

/-! ## Quoted text -/

/-- What is escaped is closed by the first quote behind it. -/
theorem quotedAt_escaped (n start : Nat) (cs ds : List Char) :
    quotedAt n start '"' (escaped cs ++ '"' :: ds) = .ok (cs, ds) := by
  induction cs with
  | nil =>
    rw [quotedAt.eq_def]
    rfl
  | cons c cs ih =>
    have hcons : escaped (c :: cs)
        = (if c = '"' || c = '\\' then ['\\', c] else [c]) ++ escaped cs := List.flatMap_cons
    rw [hcons]
    by_cases hc : c = '"' ∨ c = '\\'
    · have hesc : escape? c = some c := by
        rcases hc with rfl | rfl <;> rfl
      simp only [hc, Bool.or_eq_true, decide_eq_true_eq, if_true, List.cons_append,
        List.nil_append]
      rw [quotedAt.eq_def]
      simp [hesc, ih, Except.map]
    · obtain ⟨hquote, hback⟩ := not_or.1 hc
      simp only [hc, Bool.or_eq_true, decide_eq_true_eq, if_false, List.cons_append,
        List.nil_append]
      rw [quotedAt.eq_def]
      simp [hquote, hback, ih, Except.map]

/-- Text without backticks is closed by the first one behind it. -/
theorem quotedAt_backtick (n start : Nat) {cs : List Char} (hcs : '\x60' ∉ cs) (ds : List Char) :
    quotedAt n start '\x60' (cs ++ '\x60' :: ds) = .ok (cs, ds) := by
  induction cs with
  | nil =>
    rw [quotedAt.eq_def]
    rfl
  | cons c cs ih =>
    obtain ⟨hc, hcs⟩ := not_or.1 (mt List.mem_cons.2 hcs)
    rw [List.cons_append, quotedAt.eq_def]
    simp [Ne.symm hc, ih hcs, Except.map]

theorem spelled_string (x : String) : (Word.token (.string x)).Spelled := by
  refine ⟨'"', escaped x.toList ++ ['"'], rfl, by decide, Or.inl (by decide), fun n ds _ => ?_⟩
  rw [List.append_assoc, scan_word rfl fun d _ => double?_eq_none (by decide) d]
  refine map_eq_ok_iff.2 ⟨_, quotedAt_escaped _ _ _ _, ?_⟩
  simp only [String.ofList_toList]
  rfl

/-- A name in backticks is scanned as such, whatever follows. -/
theorem scan_backtick (n : Nat) {x : String} (hx : '\x60' ∉ x.toList) (ds : List Char) :
    scan n '\x60' (x.toList ++ '\x60' :: ds) = .ok (.name x, ds) := by
  rw [scan_word rfl fun d _ => double?_eq_none (by decide) d]
  refine map_eq_ok_iff.2 ⟨_, quotedAt_backtick _ _ hx _, ?_⟩
  simp only [String.ofList_toList]

theorem spelled_name {x : String} (hx : '\x60' ∉ x.toList) : (Word.token (.name x)).Spelled := by
  refine ⟨'\x60', x.toList ++ ['\x60'], rfl, by decide, Or.inl (by decide), fun n ds _ => ?_⟩
  rw [List.append_assoc]
  exact scan_backtick n hx ds

/-! ## Numbers -/

theorem digitsAt_digits {cs : List Char} (hcs : ∀ c ∈ cs, c.isDigit = true) (seenPoint : Bool)
    (ds : List Char) :
    digitsAt seenPoint false (cs ++ ds)
      = (cs ++ (digitsAt seenPoint false ds).1, (digitsAt seenPoint false ds).2) := by
  induction cs with
  | nil => rfl
  | cons c cs ih =>
    have hc : c.isDigit = true := hcs c List.mem_cons_self
    have hmark : isExponentMark c = false := by
      simp [isExponentMark, ne_of_isDigit hc]
    rw [List.cons_append, digitsAt]
    simp [hc, hmark, ih fun d hd => hcs d (List.mem_cons_of_mem _ hd)]

theorem digitsAt_spaced (seenPoint : Bool) {ds : List Char} (hds : Spaced ds) :
    digitsAt seenPoint false ds = ([], ds) := by
  rcases hds with rfl | ⟨es, rfl⟩
  · rfl
  · rw [digitsAt]
    rfl

theorem digitsAt_fractionChars (x : Numeral) {ds : List Char} (hds : Spaced ds) :
    digitsAt false false (x.fractionChars ++ ds) = (x.fractionChars, ds) := by
  unfold Numeral.fractionChars
  split
  · exact digitsAt_spaced false hds
  · rename_i hne
    obtain ⟨d, es, hf⟩ := List.exists_cons_of_ne_nil hne
    have hd : d.isDigit = true := x.fraction_digits d (by simp [hf])
    have htail := digitsAt_digits x.fraction_digits true ds
    rw [digitsAt_spaced true hds, List.append_nil] at htail
    rw [List.cons_append, digitsAt, htail, hf]
    simp [hd, isExponentMark]

/-- What begins with a digit is scanned as a number. -/
theorem scan_digit {n : Nat} {c : Char} (hc : c.isDigit = true) (rest : List Char) :
    scan n c rest = scanWord n c rest := by
  have hne : ∀ d : Char, d.isDigit = false → c ≠ d := fun d => ne_of_isDigit hc
  have hsingle : single? c = none := by
    unfold single?
    split <;> first | rfl | cases hc
  have hdouble : c ∉ ['!', '<', '>', '$'] := by
    simp [hne]
  exact scan_word hsingle fun d _ => double?_eq_none hdouble d

theorem spelled_number (m : Magnitude) :
    (Word.token (.number (.finite false m))).Spelled := by
  obtain ⟨x, -, hchars, -⟩ := charsIn_plain_finite false m
  have hread := Number.read?_charsIn_plain false m
  obtain ⟨c, ws, hwhole, hc⟩ := x.exists_whole_eq
  have hx : (Number.finite false m).charsIn .plain = c :: (ws ++ x.fractionChars) := by
    rw [hchars, Numeral.chars, hwhole]
    rfl
  rw [hx] at hread
  have hne : ∀ d : Char, d.isDigit = false → c ≠ d := fun d => ne_of_isDigit hc
  refine ⟨c, ws ++ x.fractionChars, hx, isBlank_of_isDigit hc, Or.inl (hne '/' rfl),
    fun n ds hds => ?_⟩
  have hdigits : digitsAt false false (ws ++ x.fractionChars ++ ds)
      = (ws ++ x.fractionChars, ds) := by
    have hws : ∀ d ∈ ws, d.isDigit = true := fun d hd => x.whole_digits d (by simp [hwhole, hd])
    rw [List.append_assoc, digitsAt_digits hws, digitsAt_fractionChars x hds]
  rw [scan_digit hc, scanWord]
  simp only [hne '"' rfl, hne '\'' rfl, hne '\x60' rfl, hne '$' rfl, hc, hdigits, hread,
    if_false, if_true, decide_false, Bool.or_self, Bool.false_eq_true]
  rfl

end PipeQuery.Expr
