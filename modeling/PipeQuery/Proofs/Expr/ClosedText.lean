import PipeQuery.Proofs.Expr.Lexemes
import PipeQuery.Proofs.Expr.Scanning

/-!
# Tokens before a closing parenthesis

What is read from a text is read as well if a closing parenthesis follows: no name, no
number and no sign goes on with it.  Only a comment that is not closed would swallow it;
so no comment may begin in the text (`CommentFree`).

`Ahead.Closed tail s s'` says that `s'` is what is ahead where `s` is ahead in a text, and
a closing parenthesis with `tail` follows the text.  Where the text ends, the closing
parenthesis is ahead.
-/

namespace PipeQuery.Expr

/-- No comment begins in the text. -/
def CommentFree (cs : List Char) : Prop := ¬ ['/', '*'] <:+: cs

theorem CommentFree.suffix {cs ds : List Char} (h : CommentFree cs) (hds : ds <:+ cs) :
    CommentFree ds :=
  fun hin => h (hin.trans hds.isInfix)

variable {n m start : Nat} {tail cs after : List Char}

/-! ## Loops over characters -/

/-- White space is skipped up to the end of a text, and not further. -/
theorem skip_closed (h : CommentFree cs) :
    skip false (cs ++ ')' :: tail) = skip false cs ++ ')' :: tail := by
  have hclose : skip false (')' :: tail) = ')' :: tail :=
    skip_of_not_blank (by decide) (by decide) tail
  induction cs with
  | nil => exact hclose
  | cons c cs ih =>
    have ih := ih (h.suffix (List.suffix_cons c cs))
    cases cs with
    | nil =>
      simp only [List.nil_append] at ih
      cases hblank : isBlank c with
      | false => simp [skip, hblank]
      | true => simp [skip, hblank, hclose]
    | cons d cs =>
      have hcomment : ¬ (c = '/' ∧ d = '*') := by
        rintro ⟨rfl, rfl⟩
        exact h (List.prefix_append ['/', '*'] cs).isInfix
      simp only [List.cons_append] at ih ⊢
      simp only [skip, Bool.false_eq_true, if_false, Bool.and_eq_true, decide_eq_true_eq, hcomment]
      split
      · exact ih
      · rfl

theorem quotedAt_append {start' : Nat} {quote : Char} {text : List Char}
    (h : quotedAt n start quote cs = .ok (text, after)) (ds : List Char) :
    quotedAt m start' quote (cs ++ ds) = .ok (text, after ++ ds) := by
  fun_induction quotedAt n start quote cs generalizing text after with
  | case1 => cases h
  | case2 rest =>
    cases h
    rw [quotedAt.eq_def]
    simp
  | case3 => cases h
  | case4 => cases h
  | case5 c hquote hback e behind x hx ih =>
    obtain ⟨⟨text', after'⟩, hq, hr⟩ := map_eq_ok_iff.1 h
    cases hr
    rw [List.cons_append, List.cons_append, quotedAt.eq_def]
    dsimp only
    rw [if_neg hquote, if_pos hback, hx]
    exact congrArg (Except.map _) (ih hq)
  | case6 c rest hquote hback ih =>
    obtain ⟨⟨text', after'⟩, hq, hr⟩ := map_eq_ok_iff.1 h
    cases hr
    rw [List.cons_append, quotedAt.eq_def]
    dsimp only
    rw [if_neg hquote, if_neg hback]
    exact congrArg (Except.map _) (ih hq)

theorem patternAt_append {start' : Nat} {p : List Char}
    (h : patternAt start cs = .ok (p, after)) (ds : List Char) :
    patternAt start' (cs ++ ds) = .ok (p, after ++ ds) := by
  fun_induction patternAt start cs generalizing p after with
  | case1 => cases h
  | case2 rest =>
    cases h
    rw [patternAt.eq_def]
    rfl
  | case3 rest ih =>
    obtain ⟨⟨p', after'⟩, hp, hr⟩ := map_eq_ok_iff.1 h
    cases hr
    rw [patternAt.eq_def]
    simp [ih hp, Except.map]
  | case4 c rest hc ih =>
    obtain ⟨⟨p', after'⟩, hp, hr⟩ := map_eq_ok_iff.1 h
    cases hr
    simp only [List.cons_append]
    rw [patternAt.eq_4 _ _ _ hc, ih hp]
    rfl
  | case5 c rest hclose hslash hback ih =>
    obtain ⟨⟨p', after'⟩, hp, hr⟩ := map_eq_ok_iff.1 h
    cases hr
    have hback : c ≠ '\\' := by
      rintro rfl
      cases rest with
      | nil => cases hp
      | cons d rest => exact hback d rest rfl rfl
    rw [List.cons_append, patternAt.eq_5 _ _ _ hclose (fun _ h => absurd h hback)
      (fun _ _ h => absurd h hback), ih hp]
    rfl

theorem regexAt_closed {start' : Nat} {pattern flags : String}
    (h : regexAt start cs = .ok (pattern, flags, after)) :
    regexAt start' (cs ++ ')' :: tail) = .ok (pattern, flags, after ++ ')' :: tail) := by
  unfold regexAt at h ⊢
  obtain ⟨⟨p, rest⟩, hp, hflags⟩ := bind_eq_ok_iff.1 h
  rw [patternAt_append hp]
  dsimp only at hflags
  split at hflags
  · cases hflags
  · rename_i hne
    cases hflags
    simp only [bind, Except.bind, hne, nameAt,
      takeWhile_before (show isNameChar ')' = false by decide),
      dropWhile_before (show isNameChar ')' = false by decide)]
    rfl

theorem digitsAt_closed (seenPoint afterMark : Bool) (cs : List Char) :
    digitsAt seenPoint afterMark (cs ++ ')' :: tail)
      = ((digitsAt seenPoint afterMark cs).1,
        (digitsAt seenPoint afterMark cs).2 ++ ')' :: tail) := by
  fun_induction digitsAt seenPoint afterMark cs with
  | case1 =>
    rw [List.nil_append, digitsAt]
    rfl
  | case2 seenPoint afterMark c rest hc digits after hrest ih =>
    rw [hrest] at ih
    rw [List.cons_append, digitsAt, if_pos hc, ih]
  | case3 seenPoint afterMark c rest hc hpoint digits after hrest ih =>
    rw [hrest] at ih
    have hpoint' : (c = '.' && !seenPoint
        && (rest ++ ')' :: tail).head?.any Char.isDigit) = true := by
      cases rest with
      | nil => simp at hpoint
      | cons d rest => exact hpoint
    rw [List.cons_append, digitsAt, if_neg hc, if_pos hpoint', ih]
  | case4 seenPoint afterMark c rest hc hpoint =>
    have hpoint' : ¬ (c = '.' && !seenPoint
        && (rest ++ ')' :: tail).head?.any Char.isDigit) = true := by
      cases rest with
      | nil => simp
      | cons d rest => exact hpoint
    rw [List.cons_append, digitsAt, if_neg hc, if_neg hpoint']

/-! ## Tokens -/

/-- No sign of two characters ends in a closing parenthesis. -/
theorem double?_closeParen (c : Char) : double? c ')' = none := by
  unfold double?
  split <;> simp_all

theorem scanWord_closed {c : Char} {rest : List Char} {t : Token}
    (h : scanWord n c rest = .ok (t, after)) :
    scanWord m c (rest ++ ')' :: tail) = .ok (t, after ++ ')' :: tail) := by
  unfold scanWord at h ⊢
  dsimp only at h ⊢
  split at h
  · rename_i hquote
    obtain ⟨⟨text', after'⟩, hq, hr⟩ := map_eq_ok_iff.1 h
    cases hr
    rw [if_pos hquote, quotedAt_append hq]
    rfl
  · rename_i hquote
    rw [if_neg hquote]
    split at h
    · rename_i hback
      obtain ⟨⟨text', after'⟩, hq, hr⟩ := map_eq_ok_iff.1 h
      cases hr
      rw [if_pos hback, quotedAt_append hq]
      rfl
    · rename_i hback
      rw [if_neg hback]
      split at h
      · rename_i hdollar
        cases h
        rw [if_pos hdollar, nameAt, takeWhile_before rfl, dropWhile_before rfl]
        rfl
      · rename_i hdollar
        rw [if_neg hdollar]
        split at h
        · rename_i hdigit
          rw [if_pos hdigit, digitsAt_closed]
          split at h
          · rename_i hread
            cases h
            simp only [hread]
          · cases h
        · rename_i hdigit
          rw [if_neg hdigit]
          split at h
          · rename_i hname
            cases h
            rw [if_pos hname, takeWhile_before rfl, dropWhile_before rfl]
          · cases h

theorem scan_closed {c : Char} {rest : List Char} {t : Token}
    (h : scan n c rest = .ok (t, after)) :
    scan m c (rest ++ ')' :: tail) = .ok (t, after ++ ')' :: tail) := by
  have hsign : (rest ++ ')' :: tail).head?.bind (double? c) = rest.head?.bind (double? c) := by
    cases rest with
    | nil => exact double?_closeParen c
    | cons d rest => rfl
  unfold scan at h ⊢
  rw [hsign]
  cases hdouble : rest.head?.bind (double? c) with
  | some u =>
    rw [hdouble] at h
    cases h
    cases rest with
    | nil => cases hdouble
    | cons d rest => rfl
  | none =>
    rw [hdouble] at h
    dsimp only at h ⊢
    cases hsingle : single? c with
    | some u =>
      rw [hsingle] at h
      cases h
      rfl
    | none =>
      rw [hsingle] at h
      exact scanWord_closed h

/-! ## What is ahead -/

/-- What is ahead in a text without comments, and what is ahead where a closing parenthesis and
`tail` follow the text. -/
inductive Ahead.Closed (tail : List Char) : Ahead → Ahead → Prop
  /-- Where the text ends, the closing parenthesis is ahead. -/
  | finished : Closed tail .finished (.token .closeParen (')' :: tail) tail)
  /-- A token is the same, with the rest of the text behind it. -/
  | token {t : Token} {source behind : List Char} : CommentFree behind →
    Closed tail (.token t source behind) (.token t (source ++ ')' :: tail) (behind ++ ')' :: tail))

/-- What is ahead in a text is ahead where a closing parenthesis follows it. -/
theorem next_closed (m : Nat) (tail : List Char) (hcs : CommentFree cs) {s : Ahead}
    (h : next n cs = .ok s) :
    ∃ s', next m (cs ++ ')' :: tail) = .ok s' ∧ Ahead.Closed tail s s' := by
  rw [next, skip_closed hcs]
  cases hskip : skip false cs with
  | nil =>
    rw [next, hskip] at h
    cases h
    have hclose : scan m ')' tail = .ok (.closeParen, tail) :=
      scan_single rfl fun d _ => double?_eq_none (by decide) d
    refine ⟨_, ?_, .finished⟩
    simp only [List.nil_append, hclose]
    rfl
  | cons c rest =>
    have hrest : rest <:+ cs := (List.suffix_cons c rest).trans (hskip ▸ skip_suffix false cs)
    rw [next, hskip] at h
    obtain ⟨⟨t, behind⟩, hscan, hs⟩ := map_eq_ok_iff.1 h
    cases hs
    refine ⟨_, ?_, .token (hcs.suffix ((scan_suffix hscan).trans hrest))⟩
    simp only [List.cons_append, scan_closed hscan]
    rfl

end PipeQuery.Expr
