import PipeQuery.Expr.Lexer

/-!
# What is taken and what is left

Each loop over characters takes some from the front of a text and leaves the rest as it
is.  The lemmas say what was taken: white space and comments leave a suffix
(`skip_suffix`), a name and the digits of a number are just what was taken
(`nameAt_append`, `digitsAt_append`), and a quoted text or a pattern has fewer
characters than were taken for it, since its closing mark is taken as well
(`quotedAt_taken`, `patternAt_taken`).  So what is behind a token stands in the text
(`scan_suffix`).
-/

namespace PipeQuery.Expr

variable {n start : Nat} {cs after : List Char}

/-! ## Loops over characters -/

/-- White space and comments are taken from the front. -/
theorem skip_suffix (inComment : Bool) (cs : List Char) : skip inComment cs <:+ cs := by
  fun_induction skip inComment cs with
  | case1 => exact List.suffix_refl _
  | case2 _ c => exact List.nil_suffix
  | case3 _ c => exact List.suffix_refl _
  | case4 c d rest _ ih | case6 _ c d rest _ _ ih =>
    exact ih.trans ((List.suffix_cons d rest).trans (List.suffix_cons c _))
  | case5 c d rest _ ih | case7 _ c d rest _ _ _ ih =>
    exact ih.trans (List.suffix_cons c _)
  | case8 => exact List.suffix_refl _

/-- A name is what was taken. -/
theorem nameAt_append (cs : List Char) : (nameAt cs).1.toList ++ (nameAt cs).2 = cs := by
  rw [nameAt, String.toList_ofList, List.takeWhile_append_dropWhile]

/-- The characters of a number are what was taken. -/
theorem digitsAt_append (seenPoint afterMark : Bool) (cs : List Char) :
    (digitsAt seenPoint afterMark cs).1 ++ (digitsAt seenPoint afterMark cs).2 = cs := by
  fun_induction digitsAt seenPoint afterMark cs with
  | case1 => rfl
  | case2 seenPoint afterMark c rest _ digits after hrest ih =>
    rw [hrest] at ih
    rw [List.cons_append, ih]
  | case3 seenPoint afterMark c rest _ _ digits after hrest ih =>
    rw [hrest] at ih
    rw [List.cons_append, ih]
  | case4 => rfl

/-- A closing quote is taken behind the text. -/
theorem quotedAt_taken {quote : Char} {text : List Char}
    (h : quotedAt n start quote cs = .ok (text, after)) :
    ∃ taken, taken ++ after = cs ∧ text.length < taken.length := by
  fun_induction quotedAt n start quote cs generalizing text after with
  | case1 => cases h
  | case2 rest =>
    cases h
    exact ⟨[quote], rfl, Nat.zero_lt_one⟩
  | case3 => cases h
  | case4 => cases h
  | case5 c _ _ e behind x _ ih =>
    obtain ⟨⟨text', after'⟩, hq, hr⟩ := map_eq_ok_iff.1 h
    cases hr
    obtain ⟨taken, rfl, hlt⟩ := ih hq
    exact ⟨c :: e :: taken, rfl, by simp only [List.length_cons]; omega⟩
  | case6 c rest _ _ ih =>
    obtain ⟨⟨text', after'⟩, hq, hr⟩ := map_eq_ok_iff.1 h
    cases hr
    obtain ⟨taken, rfl, hlt⟩ := ih hq
    exact ⟨c :: taken, rfl, Nat.succ_lt_succ hlt⟩

/-- A closing slash is taken behind the pattern. -/
theorem patternAt_taken {p : List Char} (h : patternAt start cs = .ok (p, after)) :
    ∃ taken, taken ++ after = cs ∧ p.length < taken.length := by
  fun_induction patternAt start cs generalizing p after with
  | case1 => cases h
  | case2 rest =>
    cases h
    exact ⟨['/'], rfl, Nat.zero_lt_one⟩
  | case3 rest ih =>
    obtain ⟨⟨p', after'⟩, hp, hr⟩ := map_eq_ok_iff.1 h
    cases hr
    obtain ⟨taken, rfl, hlt⟩ := ih hp
    exact ⟨'\\' :: '/' :: taken, rfl, by simp only [List.length_cons]; omega⟩
  | case4 c rest _ ih =>
    obtain ⟨⟨p', after'⟩, hp, hr⟩ := map_eq_ok_iff.1 h
    cases hr
    obtain ⟨taken, rfl, hlt⟩ := ih hp
    exact ⟨'\\' :: c :: taken, rfl, by simp only [List.length_cons]; omega⟩
  | case5 c rest _ _ _ ih =>
    obtain ⟨⟨p', after'⟩, hp, hr⟩ := map_eq_ok_iff.1 h
    cases hr
    obtain ⟨taken, rfl, hlt⟩ := ih hp
    exact ⟨c :: taken, rfl, Nat.succ_lt_succ hlt⟩

/-- The flags are taken behind the pattern. -/
theorem regexAt_taken {pattern flags : String}
    (h : regexAt start cs = .ok (pattern, flags, after)) :
    ∃ taken, taken ++ after = cs
      ∧ pattern.toList.length + flags.toList.length < taken.length := by
  unfold regexAt at h
  obtain ⟨⟨p, rest⟩, hp, hflags⟩ := bind_eq_ok_iff.1 h
  obtain ⟨taken, rfl, hlt⟩ := patternAt_taken hp
  dsimp only at hflags
  split at hflags
  · cases hflags
  · cases hflags
    refine ⟨taken ++ (nameAt rest).1.toList, ?_, ?_⟩
    · rw [List.append_assoc, nameAt_append]
    · rw [String.toList_ofList, List.length_append]
      omega

/-! ## Tokens -/

theorem scanWord_suffix {c : Char} {rest : List Char} {t : Token}
    (h : scanWord n c rest = .ok (t, after)) : after <:+ rest := by
  unfold scanWord at h
  dsimp only at h
  split at h
  · obtain ⟨⟨text', after'⟩, hq, hr⟩ := map_eq_ok_iff.1 h
    cases hr
    obtain ⟨taken, rfl, -⟩ := quotedAt_taken hq
    exact List.suffix_append _ _
  · split at h
    · obtain ⟨⟨text', after'⟩, hq, hr⟩ := map_eq_ok_iff.1 h
      cases hr
      obtain ⟨taken, rfl, -⟩ := quotedAt_taken hq
      exact List.suffix_append _ _
    · split at h
      · cases h
        exact List.dropWhile_suffix _
      · split at h
        · split at h
          · cases h
            exact ⟨_, digitsAt_append false false rest⟩
          · cases h
        · split at h
          · cases h
            exact List.dropWhile_suffix _
          · cases h

/-- What is behind a token stands behind its first character. -/
theorem scan_suffix {c : Char} {rest : List Char} {t : Token}
    (h : scan n c rest = .ok (t, after)) : after <:+ rest := by
  unfold scan at h
  split at h
  · cases h
    exact List.drop_suffix 1 rest
  · split at h
    · cases h
      exact List.suffix_refl _
    · exact scanWord_suffix h

end PipeQuery.Expr
