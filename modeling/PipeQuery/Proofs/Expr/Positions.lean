import PipeQuery.Proofs.Expr.NormalForm
import PipeQuery.Proofs.Expr.Scanning

/-!
# Where reading stands

A position is a number of characters, taken from what is ahead.  What is ahead is always a part
of the text up to its end (`Ahead.In`), so that a position is where that part begins and does not
pass the end.

`Ahead.Reaches n k s r` says that reading gets from `s` to `r` and takes at least `k` tokens or
patterns on the way; each of them moves the position on (`Ahead.Reaches.position_le`).

`Yields E Q x` says of an outcome what its error and its result are like.  An error of reading
stands before the end of the text, or at the end if it says that the text has ended
(`Error.Stands`).
-/

namespace PipeQuery.Expr

variable {text cs after : List Char}

/-! ## Positions -/

/-- What is taken moves the position on by as many characters. -/
theorem positionOf_append {taken : List Char} (h : taken ++ after <:+ text) :
    positionOf text.length (taken ++ after) + taken.length = positionOf text.length after := by
  have hle := h.length_le
  rw [List.length_append] at hle
  rw [positionOf, positionOf, List.length_append]
  omega

/-- The position of what is not the end is before the end. -/
theorem positionOf_lt {c : Char} {rest : List Char} (h : c :: rest <:+ text) :
    positionOf text.length (c :: rest) < text.length := by
  have hle := h.length_le
  rw [List.length_cons] at hle
  rw [positionOf, List.length_cons]
  omega

theorem positionOf_mono (h : after <:+ cs) (n : Nat) : positionOf n cs ≤ positionOf n after :=
  Nat.sub_le_sub_left h.length_le n

/-! ## Outcomes -/

variable {α β : Type} {E : Error → Prop} {Q : α → Prop} {R : β → Prop}

/-- An error as `E` says or a result as `Q` says. -/
structure Yields (E : Error → Prop) (Q : α → Prop) (x : Except Error α) : Prop where
  /-- What an error is like. -/
  fails : ∀ e, x = .error e → E e
  /-- What a result is like. -/
  gives : ∀ a, x = .ok a → Q a

namespace Yields

variable {x : Except Error α}

theorem ok {a : α} (h : Q a) : Yields E Q (.ok a) where
  fails e he := by cases he
  gives b hb := by
    cases hb
    exact h

theorem error {e : Error} (h : E e) : Yields E Q (.error e) where
  fails e' he := by
    cases he
    exact h
  gives a ha := by cases ha

/-- Going on from a result yields what it yields from each such result. -/
theorem bind {f : α → Except Error β} (h : Yields E Q x) (hf : ∀ a, Q a → Yields E R (f a)) :
    Yields E R (x >>= f) := by
  cases x with
  | error e => exact .error (h.fails e rfl)
  | ok a => exact hf a (h.gives a rfl)

theorem map {f : α → β} (h : Yields E Q x) (hf : ∀ a, Q a → R (f a)) : Yields E R (x.map f) := by
  cases x with
  | error e => exact .error (h.fails e rfl)
  | ok a => exact .ok (hf a (h.gives a rfl))

/-- The result is what was yielded. -/
theorem given (h : Yields E Q x) : Yields E (fun a => Q a ∧ x = .ok a) x :=
  ⟨h.fails, fun a ha => ⟨h.gives a ha, ha⟩⟩

end Yields

/-! ## Errors -/

/-- Whether the cause is that the text has ended. -/
def Cause.isEnd : Cause → Bool
  | .expected _ none | .unexpected none => true
  | _ => false

/-- The error stands before the end of a text of `n` characters, or at the end because that is
where the text has ended. -/
def Error.Stands (n : Nat) (e : Error) : Prop :=
  e.position < n ∨ e.position = n ∧ e.cause.isEnd = true

theorem Error.Stands.position_le {n : Nat} {e : Error} (h : e.Stands n) : e.position ≤ n := by
  rcases h with h | ⟨h, -⟩ <;> omega

/-- What is wrong inside a quoted text is at its opening quote or at a backslash in it. -/
theorem quotedAt_position_lt {start : Nat} {quote : Char} {e : Error} (hstart : start < text.length)
    (hcs : cs <:+ text) (h : quotedAt text.length start quote cs = .error e) :
    e.position < text.length := by
  fun_induction quotedAt text.length start quote cs with
  | case1 =>
    cases h
    exact hstart
  | case2 => cases h
  | case3 =>
    cases h
    exact hstart
  | case4 =>
    cases h
    exact positionOf_lt hcs
  | case5 c _ _ d behind x _ ih =>
    have hbehind : behind <:+ c :: d :: behind :=
      (List.suffix_cons d behind).trans (List.suffix_cons c _)
    exact ih (hbehind.trans hcs) (map_eq_error_iff.1 h)
  | case6 c rest _ _ ih => exact ih ((List.suffix_cons c rest).trans hcs) (map_eq_error_iff.1 h)

/-- What is wrong in a pattern is at its opening slash. -/
theorem patternAt_position {start : Nat} {e : Error} (h : patternAt start cs = .error e) :
    e.position = start := by
  fun_induction patternAt start cs with
  | case1 =>
    cases h
    rfl
  | case2 => cases h
  | case3 rest ih | case4 c rest _ ih | case5 c rest _ _ _ ih => exact ih (map_eq_error_iff.1 h)

theorem regexAt_position {start : Nat} {e : Error} (h : regexAt start cs = .error e) :
    e.position = start := by
  unfold regexAt at h
  cases hp : patternAt start cs with
  | error e' =>
    rw [hp] at h
    cases h
    exact patternAt_position hp
  | ok found =>
    rw [hp] at h
    simp only [bind, Except.bind] at h
    split at h
    · cases h
      rfl
    · cases h

theorem scanWord_position_lt {c : Char} {rest : List Char} {e : Error} (hcs : c :: rest <:+ text)
    (h : scanWord text.length c rest = .error e) : e.position < text.length := by
  have hstart := positionOf_lt hcs
  have hrest : rest <:+ text := (List.suffix_cons c rest).trans hcs
  unfold scanWord at h
  dsimp only at h
  split at h
  · exact quotedAt_position_lt hstart hrest (map_eq_error_iff.1 h)
  · split at h
    · exact quotedAt_position_lt hstart hrest (map_eq_error_iff.1 h)
    · split at h
      · cases h
      · split at h
        · split at h
          · cases h
          · cases h
            exact hstart
        · split at h
          · cases h
          · cases h
            exact hstart

/-- What is wrong with a token is in the token. -/
theorem scan_position_lt {c : Char} {rest : List Char} {e : Error} (hcs : c :: rest <:+ text)
    (h : scan text.length c rest = .error e) : e.position < text.length := by
  unfold scan at h
  split at h
  · cases h
  · split at h
    · cases h
    · exact scanWord_position_lt hcs h

/-! ## What is ahead in a text -/

namespace Ahead

/-- What is ahead in a text: its end, or a token that is scanned where its text begins. -/
inductive In (text : List Char) : Ahead → Prop
  /-- The end of the text. -/
  | finished : In text .finished
  /-- A token in the text. -/
  | token {t : Token} {c : Char} {rest behind : List Char} : c :: rest <:+ text →
    scan text.length c rest = .ok (t, behind) → In text (.token t (c :: rest) behind)

variable {s r q : Ahead} {t : Token} {source behind : List Char}

/-- What is behind a token is behind its first character. -/
theorem In.behind_suffix (h : In text (.token t source behind)) :
    behind <:+ text ∧ positionOf text.length source + 1 ≤ positionOf text.length behind := by
  cases h with
  | @token _ c rest _ hsource hscan =>
    have hrest : rest <:+ text := (List.suffix_cons c rest).trans hsource
    have hmoved : positionOf text.length (c :: rest) + 1 = positionOf text.length rest :=
      @positionOf_append _ rest [c] hsource
    exact ⟨(scan_suffix hscan).trans hrest,
      Nat.le_trans (Nat.le_of_eq hmoved) (positionOf_mono (scan_suffix hscan) _)⟩

/-- A token begins before the end of the text. -/
theorem In.position_lt (h : In text (.token t source behind)) :
    (Ahead.token t source behind).position text.length < text.length := by
  cases h with
  | token hsource _ => exact positionOf_lt hsource

end Ahead

/-- What is read next is in the text, not before where reading began; an error is before the end. -/
theorem next_yields (hcs : cs <:+ text) :
    Yields (Error.Stands text.length)
      (fun s => s.In text ∧ positionOf text.length cs ≤ s.position text.length)
      (next text.length cs) := by
  have hskip : skip false cs <:+ cs := skip_suffix false cs
  unfold next
  cases hs : skip false cs with
  | nil => exact .ok ⟨.finished, Nat.sub_le _ _⟩
  | cons c rest =>
    rw [hs] at hskip
    have hsource : c :: rest <:+ text := hskip.trans hcs
    dsimp only
    cases hscan : scan text.length c rest with
    | error e => exact .error (Or.inl (scan_position_lt hsource hscan))
    | ok found => exact .ok ⟨.token hsource hscan, positionOf_mono hskip _⟩

/-! ## From token to token -/

namespace Ahead

/-- Reading gets from one thing ahead to another and takes at least so many tokens or patterns. -/
inductive Reaches (n : Nat) : Nat → Ahead → Ahead → Prop
  /-- Nothing is taken. -/
  | here {s : Ahead} : Reaches n 0 s s
  /-- A token is taken. -/
  | token {k l : Nat} {t : Token} {source behind : List Char} {s r : Ahead} :
    next n behind = .ok s → Reaches n k s r → l ≤ k + 1 →
      Reaches n l (.token t source behind) r
  /-- A pattern is taken from its opening slash on. -/
  | regex {k l : Nat} {source behind after : List Char} {pattern flags : String} {s r : Ahead} :
    regexAt (positionOf n source) behind = .ok (pattern, flags, after) → next n after = .ok s →
      Reaches n k s r → l ≤ k + 1 → Reaches n l (.token .slash source behind) r

namespace Reaches

variable {n k l : Nat} {s r q : Ahead}

theorem mono (h : Reaches n k s r) (hl : l ≤ k) : Reaches n l s r := by
  cases h with
  | here =>
    obtain rfl : l = 0 := Nat.le_zero.1 hl
    exact .here
  | token hnext h hk => exact .token hnext h (Nat.le_trans hl hk)
  | regex hread hnext h hk => exact .regex hread hnext h (Nat.le_trans hl hk)

theorem trans (h : Reaches n k s r) (h' : Reaches n l r q) : Reaches n (k + l) s q := by
  induction h with
  | here => rwa [Nat.zero_add]
  | token hnext _ hk ih => exact .token hnext (ih h') (by omega)
  | regex hread hnext _ hk ih => exact .regex hread hnext (ih h') (by omega)

/-- Whatever is taken moves the position on, and leaves what is ahead in the text. -/
theorem position_le (hs : s.In text) (h : Reaches text.length k s r) :
    r.In text ∧ s.position text.length + k ≤ r.position text.length := by
  induction h with
  | here => exact ⟨hs, Nat.le_refl _⟩
  | @token k l t source behind s r hnext _ hk ih =>
    obtain ⟨hbehind, hmoved⟩ := hs.behind_suffix
    obtain ⟨hin, hpos⟩ := (next_yields hbehind).gives _ hnext
    obtain ⟨hr, hle⟩ := ih hin
    refine ⟨hr, ?_⟩
    show positionOf text.length source + l ≤ r.position text.length
    omega
  | @regex k l source behind after pattern flags s r hread hnext _ hk ih =>
    obtain ⟨hbehind, hmoved⟩ := hs.behind_suffix
    obtain ⟨taken, rfl, -⟩ := regexAt_taken hread
    have hafter : after <:+ taken ++ after := List.suffix_append _ _
    have hafter_pos := positionOf_mono hafter text.length
    obtain ⟨hin, hpos⟩ := (next_yields (hafter.trans hbehind)).gives _ hnext
    obtain ⟨hr, hle⟩ := ih hin
    refine ⟨hr, ?_⟩
    show positionOf text.length source + l ≤ r.position text.length
    omega

theorem inText (hs : s.In text) (h : Reaches text.length k s r) : r.In text :=
  (h.position_le hs).1

end Reaches

end Ahead

end PipeQuery.Expr
