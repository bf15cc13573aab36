import PipeQuery.Proofs.Number.Numeral
import PipeQuery.Query.Lexer

/-!
# Texts and their tokens

`Lexes cs ts` says that a text is the tokens `ts` to its end, wherever it
stands: positions are in errors alone.

A token ends where nothing goes on with it, so more text may be put behind it
that does not go on with it either.  `Follows t ds` is what this takes of the
text `ds`: a comment goes on to the end of its line, names and numbers go on up
to a delimiter, and everything else ends by itself.  Behind the end of a line
any text may stand, which is `Lexes.line`.
-/

namespace PipeQuery.Query

/-! ## Delimiters -/

/-- A character that goes on neither with a name nor with a number. -/
def isDelimiter (c : Char) : Bool := !isNameChar c && c != '-' && c != '.'

/-- A text that begins with a delimiter, if with anything. -/
def Delimited (ds : List Char) : Prop := ∀ d ∈ ds.head?, isDelimiter d = true

/-- What may stand behind a token. -/
def Follows : Token → List Char → Prop
  | .comment _, ds => ∀ d ∈ ds.head?, d = '\n'
  | .number _, ds | .boolean _, ds | .null, ds | .identifier _, ds | .flag _, ds => Delimited ds
  | _, _ => True

theorem isDelimiter_iff {c : Char} :
    isDelimiter c = true ↔ isNameChar c = false ∧ c ≠ '-' ∧ c ≠ '.' := by
  simp [isDelimiter, and_assoc]

namespace Delimited

variable {ds : List Char}

theorem not_alphanumeric (h : Delimited ds) : ∀ d ∈ ds.head?, isAlphanumeric d = false := by
  intro d hd
  have := (isDelimiter_iff.1 (h d hd)).1
  simp only [isNameChar, Bool.or_eq_false_iff] at this
  exact this.1

theorem not_digit (h : Delimited ds) : ∀ d ∈ ds.head?, d.isDigit = false := by
  intro d hd
  refine Bool.eq_false_iff.2 fun hdigit => ?_
  have halpha := isAlphanumeric_of_isDigit hdigit
  rw [h.not_alphanumeric d hd] at halpha
  cases halpha

end Delimited

theorem delimited_cons {d : Char} (h : isDelimiter d = true) (ds : List Char) :
    Delimited (d :: ds) := by
  intro e he
  cases he
  exact h

/-- A delimiter may stand behind any token but a comment. -/
theorem follows_of_delimited {t : Token} {ds : List Char} (ht : ∀ x, t ≠ .comment x)
    (h : Delimited ds) : Follows t ds := by
  cases t with
  | comment x => exact absurd rfl (ht x)
  | number n => exact h
  | boolean b => exact h
  | null => exact h
  | identifier name => exact h
  | flag name => exact h
  | _ => trivial

/-- The end of a line may stand behind any token. -/
theorem follows_newline (t : Token) (ds : List Char) : Follows t ('\n' :: ds) := by
  by_cases ht : ∃ x, t = .comment x
  · obtain ⟨x, rfl⟩ := ht
    intro d hd
    cases hd
    rfl
  · exact follows_of_delimited (fun x hx => ht ⟨x, hx⟩) (delimited_cons (by decide) ds)

/-! ## More text behind a token -/

/-- Text that does not begin with such a character does not change whether one comes next. -/
theorem head?_any_append {p : Char → Bool} {cs ds : List Char} (h : ∀ d ∈ ds.head?, p d = false) :
    (cs ++ ds).head?.any p = cs.head?.any p := by
  cases cs with
  | cons c cs => rfl
  | nil =>
    cases ds with
    | nil => rfl
    | cons d ds => simpa using h d rfl

theorem nameTail_append_delimited {ds : List Char} (h : Delimited ds) (cs : List Char) :
    nameTail (cs ++ ds) = ((nameTail cs).1, (nameTail cs).2 ++ ds) := by
  induction cs with
  | nil =>
    cases ds with
    | nil => rfl
    | cons d ds =>
      obtain ⟨hname, hdash, -⟩ := isDelimiter_iff.1 (h d rfl)
      simp [nameTail, hname, hdash]
  | cons c rest ih =>
    rw [List.cons_append, nameTail, nameTail, head?_any_append h.not_alphanumeric, ih]
    split <;> rfl

theorem nameAt_append_delimited {ds : List Char} (h : Delimited ds) (cs : List Char) :
    nameAt (cs ++ ds) = ((nameAt cs).1, (nameAt cs).2 ++ ds) := by
  cases cs with
  | nil =>
    cases ds with
    | nil => rfl
    | cons d ds => simp [nameAt, (isDelimiter_iff.1 (h d rfl)).1]
  | cons c rest =>
    rw [List.cons_append, nameAt, nameAt, nameTail_append_delimited h]
    split <;> rfl

theorem digitsAt_append_delimited {ds : List Char} (h : Delimited ds) (seenPoint : Bool)
    (cs : List Char) :
    digitsAt seenPoint (cs ++ ds)
      = ((digitsAt seenPoint cs).1, (digitsAt seenPoint cs).2 ++ ds) := by
  induction cs generalizing seenPoint with
  | nil =>
    cases ds with
    | nil => rfl
    | cons d ds =>
      have hpoint := (isDelimiter_iff.1 (h d rfl)).2.2
      simp [digitsAt, h.not_digit d rfl, hpoint]
  | cons c rest ih =>
    rw [List.cons_append, digitsAt, digitsAt, head?_any_append h.not_digit, ih, ih]
    split
    · rfl
    · split <;> rfl

/-! Text in quotes goes on by one character at a time, or by an escape. -/

theorem scanQuoted_close (quote : Char) (before rest : List Char) :
    scanQuoted quote before (quote :: rest) = .ok ([], [quote], rest) := by
  rw [scanQuoted.eq_def]
  exact if_pos rfl

theorem scanQuoted_escape {quote e x : Char} (before rest : List Char) (hquote : '\\' ≠ quote)
    (he : escape? e = some x) :
    scanQuoted quote before ('\\' :: e :: rest)
      = (scanQuoted quote (before ++ ['\\', e]) rest).map fun (text, span, after) =>
        (x :: text, '\\' :: e :: span, after) := by
  rw [scanQuoted, if_neg hquote, if_pos rfl]
  simp only [he]

theorem scanQuoted_plain {quote c : Char} (before rest : List Char) (hquote : c ≠ quote)
    (hback : c ≠ '\\') :
    scanQuoted quote before (c :: rest)
      = (scanQuoted quote (before ++ [c]) rest).map fun (text, span, after) =>
        (c :: text, c :: span, after) := by
  rw [scanQuoted.eq_def]
  exact (if_neg hquote).trans (if_neg hback)

/-- A quote that is closed is closed at the same place. -/
theorem scanQuoted_append {quote : Char} {before cs text span after : List Char}
    (h : scanQuoted quote before cs = .ok (text, span, after)) (ds : List Char) :
    scanQuoted quote before (cs ++ ds) = .ok (text, span, after ++ ds) := by
  fun_induction scanQuoted quote before cs generalizing text span after with
  | case1 => cases h
  | case2 before rest =>
    cases h
    exact scanQuoted_close quote before _
  | case3 => cases h
  | case4 => cases h
  | case5 before e rest x he hquote ih =>
    obtain ⟨⟨text', span', after'⟩, hs, hr⟩ := map_eq_ok_iff.1 h
    cases hr
    rw [List.cons_append, List.cons_append, scanQuoted_escape _ _ hquote he, ih hs]
    rfl
  | case6 before c rest hquote hback ih =>
    obtain ⟨⟨text', span', after'⟩, hs, hr⟩ := map_eq_ok_iff.1 h
    cases hr
    rw [List.cons_append, scanQuoted_plain _ _ hquote hback, ih hs]
    rfl

theorem numberToken_append {span after span' after' : List Char} {t : Token}
    (h : numberToken span after = .ok (t, span', after')) (ds : List Char) :
    numberToken span (after ++ ds) = .ok (t, span', after' ++ ds) := by
  unfold numberToken at h ⊢
  split at h
  · cases h
    rfl
  · cases h

/-- A name is one of the literals that are words, or an identifier. -/
theorem follows_nameToken {name ds : List Char} (h : Follows (nameToken name) ds) :
    Delimited ds := by
  unfold nameToken at h
  split at h <;> exact h

theorem follows_numberToken {span after span' after' ds : List Char} {t : Token}
    (h : numberToken span after = .ok (t, span', after')) (hds : Follows t ds) :
    Delimited ds := by
  unfold numberToken at h
  split at h
  · cases h
    exact hds
  · cases h

/-- The end of a line ends a comment. -/
theorem takeWhile_append_newline {ds : List Char} (h : ∀ d ∈ ds.head?, d = '\n')
    (cs : List Char) :
    (cs ++ ds).takeWhile (· != '\n') = cs.takeWhile (· != '\n')
      ∧ (cs ++ ds).dropWhile (· != '\n') = cs.dropWhile (· != '\n') ++ ds := by
  induction cs with
  | nil =>
    cases ds with
    | nil => exact ⟨rfl, rfl⟩
    | cons d ds =>
      obtain rfl := h d rfl
      exact ⟨rfl, rfl⟩
  | cons c cs ih =>
    rw [List.cons_append, List.takeWhile_cons, List.takeWhile_cons, List.dropWhile_cons,
      List.dropWhile_cons, ih.1, ih.2]
    split <;> exact ⟨rfl, rfl⟩

/-- A comment goes on to the end of a text that is one line. -/
theorem scanToken_comment {text : List Char} (h : '\n' ∉ text) :
    scanToken '#' text = .ok (.comment (String.ofList (trimChars text)), '#' :: text, []) := by
  have hline : ∀ c ∈ text, (c != '\n') = true := by
    intro c hc
    rw [bne_iff_ne]
    rintro rfl
    exact h hc
  have htake : text.takeWhile (· != '\n') = text := List.takeWhile_eq_self_iff.2 hline
  have hdrop : text.dropWhile (· != '\n') = [] := List.dropWhile_eq_nil_iff.2 hline
  simp only [scanToken]
  rw [htake, hdrop]

/-- A token is found as before if text follows that does not go on with it. -/
theorem scanToken_append {c : Char} {rest : List Char} {t : Token} {span after ds : List Char}
    (h : scanToken c rest = .ok (t, span, after)) (hds : Follows t ds) :
    scanToken c (rest ++ ds) = .ok (t, span, after ++ ds) := by
  unfold scanToken at h ⊢
  split at h
  · cases h
    rfl
  · cases h
    rfl
  · cases h
    rfl
  · cases h
    rfl
  · cases h
    rfl
  · cases h
    obtain ⟨htake, hdrop⟩ := takeWhile_append_newline hds rest
    rw [htake, hdrop]
  · obtain ⟨⟨text', span', after'⟩, hs, hr⟩ := map_eq_ok_iff.1 h
    cases hr
    simp only
    rw [scanQuoted_append hs]
    rfl
  · obtain ⟨⟨text', span', after'⟩, hs, hr⟩ := map_eq_ok_iff.1 h
    cases hr
    simp only
    rw [scanQuoted_append hs]
    rfl
  · split at h
    · cases h
      simp only [List.cons_append]
      rw [nameAt_append_delimited hds]
      rfl
    · split at h
      · rename_i hd
        simp only [List.cons_append, hd, if_true]
        rw [← List.cons_append, digitsAt_append_delimited (follows_numberToken h hds)]
        exact numberToken_append h ds
      · cases h
    · cases h
  · split at h
    · rename_i hd
      simp only [hd, if_true]
      rw [← List.cons_append, digitsAt_append_delimited (follows_numberToken h hds)]
      exact numberToken_append h ds
    · split at h
      · rename_i hd ha
        cases h
        simp only [hd, ha, if_true]
        rw [nameTail_append_delimited (follows_nameToken hds)]
        rfl
      · cases h

/-! ## Texts -/

/-- A text that is these tokens to its end. -/
inductive Lexes : List Char → List Token → Prop
  | blank {bs : List Char} : (∀ b ∈ bs, isBlank b = true) → Lexes bs []
  | token {bs : List Char} {c : Char} {rest : List Char} {t : Token} {span after : List Char}
    {ts : List Token} :
    (∀ b ∈ bs, isBlank b = true) → isBlank c = false →
    scanToken c rest = .ok (t, span, after) → Lexes after ts → Lexes (bs ++ c :: rest) (t :: ts)

/-- The tokens of a text do not depend on where it stands. -/
theorem lexes_iff (p : Position) {cs : List Char} {ts : List Token} :
    Lexes cs ts ↔ (lexFrom p cs).error? = none ∧ (lexFrom p cs).toList = ts := by
  constructor
  · intro h
    induction h generalizing p with
    | blank hbs =>
      have hdrop := List.dropWhile_eq_nil_iff.2 hbs
      rw [lexFrom]
      split
      · exact ⟨rfl, rfl⟩
      · rename_i heq
        rw [hdrop] at heq
        cases heq
    | @token bs c rest t span after ts hbs hc hscan _ ih =>
      have hdrop : (bs ++ c :: rest).dropWhile isBlank = c :: rest := by
        rw [List.dropWhile_append_of_pos hbs, List.dropWhile_cons_of_neg (by simp [hc])]
      rw [lexFrom]
      split
      · rename_i heq
        rw [hdrop] at heq
        cases heq
      · rename_i heq
        rw [hdrop] at heq
        cases heq
        split
        · rename_i heq
          rw [hscan] at heq
          cases heq
        · rename_i heq
          rw [hscan] at heq
          cases heq
          obtain ⟨herr, htoks⟩ := ih ((p.past ((bs ++ c :: rest).takeWhile isBlank)).past span)
          exact ⟨herr, by rw [Tokens.toList, htoks]⟩
  · rintro ⟨herr, rfl⟩
    fun_induction lexFrom p cs with
    | case1 p cs hcs => exact .blank (List.dropWhile_eq_nil_iff.1 hcs)
    | case2 p cs c rest hcs start fault hscan => cases herr
    | case3 p cs c rest hcs start t span after hscan ih =>
      have hsplit : cs.takeWhile isBlank ++ c :: rest = cs := by
        rw [← hcs]
        exact List.takeWhile_append_dropWhile
      have hc : isBlank c = false := by
        have hnot := List.head?_dropWhile_not isBlank cs
        rw [hcs] at hnot
        exact hnot
      rw [← hsplit]
      exact .token (fun b hb => List.mem_takeWhile_imp hb) hc hscan (ih herr)

namespace Lexes

/-- White space in front of a text changes nothing. -/
theorem blank_append {bs cs : List Char} {ts : List Token} (hbs : ∀ b ∈ bs, isBlank b = true)
    (h : Lexes cs ts) : Lexes (bs ++ cs) ts := by
  cases h with
  | blank hcs =>
    refine .blank fun b hb => ?_
    rcases List.mem_append.1 hb with hb | hb
    · exact hbs b hb
    · exact hcs b hb
  | token hcs hc hscan h =>
    rw [← List.append_assoc]
    refine .token (fun b hb => ?_) hc hscan h
    rcases List.mem_append.1 hb with hb | hb
    · exact hbs b hb
    · exact hcs b hb

/-- A token in front of a text that does not go on with it. -/
theorem cons {c : Char} {rest span ds : List Char} {t : Token} {ts : List Token}
    (hc : isBlank c = false) (hscan : scanToken c rest = .ok (t, span, []))
    (hds : Follows t ds) (h : Lexes ds ts) : Lexes (c :: rest ++ ds) (t :: ts) := by
  rw [← List.nil_append (c :: rest ++ ds)]
  exact .token (by simp) hc (scanToken_append hscan hds) h

/-- A text behind the end of a line has the tokens it has by itself. -/
theorem line {cs ds : List Char} {ts us : List Token} (h : Lexes cs ts) (h' : Lexes ds us) :
    Lexes (cs ++ '\n' :: ds) (ts ++ us) := by
  induction h with
  | @blank bs hbs =>
    rw [List.append_cons]
    refine blank_append (fun b hb => ?_) h'
    rcases List.mem_append.1 hb with hb | hb
    · exact hbs b hb
    · obtain rfl := List.mem_singleton.1 hb
      decide
  | token hbs hc hscan _ ih =>
    rw [List.append_assoc, List.cons_append, List.cons_append]
    exact .token hbs hc (scanToken_append hscan (follows_newline _ _)) ih

end Lexes

end PipeQuery.Query
