import PipeQuery.Format.Json.Error
import PipeQuery.Number.Text
import PipeQuery.Outcome
import PipeQuery.Text.Radix

/-!
# Strings and numbers of JSON

`stringAt` reads a string behind its opening quote, `numberAt` a number behind
its sign.  Both give the rest of the text, which `length_stringAt_lt` and
`length_numberAt_lt` show to be shorter.

A fault is placed behind the character that was read last, or behind the one
that was looked at and not read.
-/

namespace PipeQuery.Json

/-- A fault at a place where everything before `rest` was read. -/
def faultAt {α : Type} (cause : Cause) (rest : List Char) : Except Fault α :=
  .error ⟨cause, byteCount rest⟩

/-- A fault at the first byte of `rest`, which was looked at. -/
def faultPeeking {α : Type} (cause : Cause) (rest : List Char) : Except Fault α :=
  .error ⟨cause, byteCount rest - 1⟩

/-! ## Strings -/

/-- What a character after a backslash stands for, the code points apart. -/
def escape? : Char → Option Char
  | '"' => some '"'
  | '\\' => some '\\'
  | '/' => some '/'
  | 'b' => some '\x08'
  | 'f' => some '\x0c'
  | 'n' => some '\n'
  | 'r' => some '\r'
  | 't' => some '\t'
  | _ => none

/-- Four hexadecimal digits, as a number. -/
def hexAt (cs : List Char) : Except Fault (Nat × List Char) :=
  match cs with
  | a :: b :: c :: d :: rest =>
    match numberIn? 16 [a, b, c, d] with
    | some value => .ok (value, rest)
    | none => .error ⟨.invalidEscape, byteCount cs - 4⟩
  | _ =>
    if byteCount cs < 4 then faultAt .endInString []
    else .error ⟨.invalidEscape, byteCount cs - 4⟩

/-- The second half of a pair whose first half is `high`: the character of the pair. -/
def pairAt (high : Nat) (cs : List Char) : Except Fault (Char × List Char) :=
  match cs with
  | '\\' :: 'u' :: behind => do
    let (low, rest) ← hexAt behind
    if low < 0xDC00 ∨ 0xDFFF < low then faultAt .loneSurrogate rest
    else return (Char.ofNat ((high - 0xD800) * 0x400 + (low - 0xDC00) + 0x10000), rest)
  | [] | ['\\'] => faultAt .endInString []
  | '\\' :: rest => faultPeeking .endOfHexEscape rest
  | rest => faultPeeking .endOfHexEscape rest

/-- The character behind a backslash and the letter `u`, which may take two code units. -/
def unicodeAt (cs : List Char) : Except Fault (Char × List Char) := do
  let (code, rest) ← hexAt cs
  if 0xDC00 ≤ code ∧ code ≤ 0xDFFF then faultAt .loneSurrogate rest
  else if 0xD800 ≤ code ∧ code ≤ 0xDBFF then pairAt code rest
  else return (Char.ofNat code, rest)

/-- The character that an escape stands for, behind its backslash. -/
def escapeAt (cs : List Char) : Except Fault (Char × List Char) :=
  match cs with
  | [] => faultAt .endInString []
  | 'u' :: rest => unicodeAt rest
  | e :: rest =>
    match escape? e with
    | some c => .ok (c, rest)
    | none => faultAt .invalidEscape rest

theorem length_hexAt_lt {cs rest : List Char} {code : Nat} (h : hexAt cs = .ok (code, rest)) :
    rest.length < cs.length := by
  unfold hexAt at h
  split at h
  · split at h
    · simp only [Except.ok.injEq, Prod.mk.injEq] at h
      simp only [← h.2, List.length_cons]
      omega
    · exact nomatch h
  · split at h
    · exact nomatch h
    · exact nomatch h

theorem length_pairAt_lt {high : Nat} {cs rest : List Char} {c : Char}
    (h : pairAt high cs = .ok (c, rest)) : rest.length < cs.length := by
  unfold pairAt at h
  split at h
  · rename_i behind
    cases hx : hexAt behind with
    | error e => simp [hx, bind, Except.bind] at h
    | ok r =>
      obtain ⟨low, after⟩ := r
      have := length_hexAt_lt hx
      simp only [hx, bind, Except.bind] at h
      split at h
      · exact nomatch h
      · simp only [pure, Except.pure, Except.ok.injEq, Prod.mk.injEq] at h
        simp only [← h.2, List.length_cons]
        omega
  · exact nomatch h
  · exact nomatch h
  · exact nomatch h
  · exact nomatch h

theorem length_unicodeAt_lt {cs rest : List Char} {c : Char} (h : unicodeAt cs = .ok (c, rest)) :
    rest.length < cs.length := by
  unfold unicodeAt at h
  cases hx : hexAt cs with
  | error e => simp [hx, bind, Except.bind] at h
  | ok r =>
    obtain ⟨code, after⟩ := r
    have := length_hexAt_lt hx
    simp only [hx, bind, Except.bind] at h
    split at h
    · cases h
    · split at h
      · exact Nat.lt_trans (length_pairAt_lt h) this
      · cases h
        exact this

theorem length_escapeAt_lt {cs rest : List Char} {c : Char} (h : escapeAt cs = .ok (c, rest)) :
    rest.length < cs.length := by
  unfold escapeAt at h
  split at h
  · cases h
  · exact Nat.lt_succ_of_lt (length_unicodeAt_lt h)
  · split at h
    · cases h
      simp
    · cases h

/-- The text up to the closing quote, and what is behind the quote. -/
def stringAt (cs : List Char) : Except Fault (List Char × List Char) :=
  match cs with
  | [] => faultAt .endInString []
  | '"' :: rest => .ok ([], rest)
  | '\\' :: rest =>
    match _h : escapeAt rest with
    | .error fault => .error fault
    | .ok (c, rest) => (stringAt rest).map fun (text, after) => (c :: text, after)
  | c :: rest =>
    if c.toNat < 0x20 then faultAt .controlCharacter rest
    else (stringAt rest).map fun (text, after) => (c :: text, after)
termination_by cs.length
decreasing_by
  · exact Nat.lt_succ_of_lt (length_escapeAt_lt _h)
  · exact Nat.lt_succ_self _

/-! ## Numbers -/

/-- The greatest exponent that is read digit by digit. -/
def exponentLimit : Nat := 2 ^ 31 - 1

/-- The value of the digits ahead, `value` being that of the digits before, and the rest.  The
value is none as soon as it is beyond the limit. -/
def exponentDigits (value : Nat) : List Char → Option Nat × List Char
  | [] => (some value, [])
  | c :: rest =>
    if c.isDigit then
      let value := 10 * value + (c.toNat - '0'.toNat)
      if exponentLimit < value then (none, rest) else exponentDigits value rest
    else (some value, c :: rest)

/-- Whether a minus is ahead, and what follows the sign, if there is one. -/
def signAt : List Char → Bool × List Char
  | '-' :: rest => (true, rest)
  | '+' :: rest => (false, rest)
  | rest => (false, rest)

/-- The exponent ahead, `0` if there is none, and the rest.  It is none where it is beyond the
limit upward; beyond the limit downward it is the limit, and all digits are read. -/
def exponentAt (cs : List Char) : Except Fault (Option Int × List Char) :=
  match cs with
  | [] => .ok (some 0, [])
  | mark :: rest =>
    if mark = 'e' ∨ mark = 'E' then
      match signAt rest with
      | (_, []) => faultAt .endInValue []
      | (negative, d :: after) =>
        if d.isDigit then
          match exponentDigits (d.toNat - '0'.toNat) after with
          | (some value, after) => .ok (some (if negative then -(value : Int) else value), after)
          | (none, after) =>
            if negative then .ok (some (-(exponentLimit : Int)), after.dropWhile Char.isDigit)
            else .ok (none, after)
        else faultAt .invalidNumber after
    else .ok (some 0, mark :: rest)

/-- The digits behind a point, if there is one, and the rest. -/
def fractionAt (cs : List Char) : Except Fault (List Char × List Char) :=
  match cs with
  | '.' :: rest =>
    let digits := rest.takeWhile Char.isDigit
    let after := rest.dropWhile Char.isDigit
    if digits.isEmpty then
      match after with
      | [] => faultAt .endInValue []
      | after => faultPeeking .invalidNumber after
    else .ok (digits, after)
  | _ => .ok ([], cs)

/-- The digits before a point and the rest; a zero stands alone. -/
def wholeAt (cs : List Char) : Except Fault (List Char × List Char) :=
  match cs with
  | [] => faultAt .endInValue []
  | '0' :: rest =>
    if rest.head?.any Char.isDigit then faultPeeking .invalidNumber rest else .ok (['0'], rest)
  | c :: rest =>
    if c.isDigit then .ok (c :: rest.takeWhile Char.isDigit, rest.dropWhile Char.isDigit)
    else faultAt .invalidNumber rest

/-- The number ahead, whose sign has been read, and the rest. -/
def numberAt (negative : Bool) (cs : List Char) : Except Fault (Number × List Char) := do
  let (whole, behindWhole) ← wholeAt cs
  let (fraction, behindFraction) ← fractionAt behindWhole
  let (exponent, rest) ← exponentAt behindFraction
  let coefficient := Nat.ofDigitChars 10 (whole ++ fraction) 0
  match exponent with
  | none =>
    if coefficient = 0 then
      return (.ofDigits negative ⟨0, 0⟩, rest.dropWhile Char.isDigit)
    else faultAt .numberOutOfRange rest
  | some exponent =>
    let n := Number.ofDigits negative ⟨coefficient, exponent - fraction.length⟩
    if n.isFinite then return (n, rest) else faultAt .numberOutOfRange rest

/-! ## The rest is shorter -/

theorem length_stringAt_lt {cs text rest : List Char} (h : stringAt cs = .ok (text, rest)) :
    rest.length < cs.length := by
  fun_induction stringAt cs generalizing text rest with
  | case1 => cases h
  | case2 rest =>
    cases h
    simp
  | case3 => cases h
  | case4 behind c after hc ih =>
    obtain ⟨⟨text', after'⟩, hs, hr⟩ := map_eq_ok_iff.1 h
    cases hr
    exact Nat.lt_succ_of_lt (Nat.lt_trans (ih hs) (length_escapeAt_lt hc))
  | case5 => cases h
  | case6 c behind _ _ _ ih =>
    obtain ⟨⟨text', after'⟩, hs, hr⟩ := map_eq_ok_iff.1 h
    cases hr
    exact Nat.lt_succ_of_lt (ih hs)

theorem length_wholeAt_lt {cs digits rest : List Char} (h : wholeAt cs = .ok (digits, rest)) :
    rest.length < cs.length := by
  unfold wholeAt at h
  split at h
  · cases h
  · split at h
    · cases h
    · cases h
      simp
  · split at h
    · rename_i c tail _ _
      cases h
      exact Nat.lt_succ_of_le (List.dropWhile_sublist _).length_le
    · cases h

theorem length_fractionAt_le {cs digits rest : List Char}
    (h : fractionAt cs = .ok (digits, rest)) : rest.length ≤ cs.length := by
  unfold fractionAt at h
  split at h
  · dsimp only at h
    split at h
    · split at h <;> cases h
    · cases h
      exact Nat.le_succ_of_le (List.dropWhile_sublist _).length_le
  · cases h
    exact Nat.le_refl _

theorem length_exponentDigits_le (value : Nat) (cs : List Char) :
    (exponentDigits value cs).2.length ≤ cs.length := by
  fun_induction exponentDigits value cs with
  | case1 => exact Nat.le_refl _
  | case2 => exact Nat.le_succ _
  | case3 _ _ _ _ _ _ ih => exact Nat.le_succ_of_le ih
  | case4 => exact Nat.le_refl _

theorem length_signAt_le (cs : List Char) : (signAt cs).2.length ≤ cs.length := by
  unfold signAt
  split
  · exact Nat.le_succ _
  · exact Nat.le_succ _
  · exact Nat.le_refl _

theorem length_exponentAt_le {cs rest : List Char} {e : Option Int}
    (h : exponentAt cs = .ok (e, rest)) : rest.length ≤ cs.length := by
  unfold exponentAt at h
  split at h
  · cases h
    exact Nat.le_refl _
  · rename_i mark tail
    split at h
    · have hsign := length_signAt_le tail
      split at h
      · exact nomatch h
      · rename_i negative d behind hs
        rw [hs] at hsign
        simp only [List.length_cons] at hsign ⊢
        split at h
        · have hdigits := length_exponentDigits_le (d.toNat - '0'.toNat) behind
          split at h
          · rename_i value after he
            rw [he] at hdigits
            cases h
            dsimp only at hdigits
            omega
          · rename_i after he
            rw [he] at hdigits
            dsimp only at hdigits
            split at h
            · cases h
              have := (List.dropWhile_sublist (l := after) Char.isDigit).length_le
              omega
            · cases h
              omega
        · exact nomatch h
    · cases h
      exact Nat.le_refl _

theorem length_numberAt_lt {negative : Bool} {cs rest : List Char} {n : Number}
    (h : numberAt negative cs = .ok (n, rest)) : rest.length < cs.length := by
  unfold numberAt at h
  cases hw : wholeAt cs with
  | error e => simp [hw, bind, Except.bind] at h
  | ok whole =>
    obtain ⟨whole, behindWhole⟩ := whole
    have h1 := length_wholeAt_lt hw
    cases hf : fractionAt behindWhole with
    | error e => simp [hw, hf, bind, Except.bind] at h
    | ok fraction =>
      obtain ⟨fraction, behindFraction⟩ := fraction
      have h2 := length_fractionAt_le hf
      cases he : exponentAt behindFraction with
      | error e => simp [hw, hf, he, bind, Except.bind] at h
      | ok exponent =>
        obtain ⟨exponent, behind⟩ := exponent
        have h3 := length_exponentAt_le he
        simp only [hw, hf, he, bind, Except.bind] at h
        cases exponent with
        | none =>
          dsimp only at h
          split at h
          · cases h
            have := (List.dropWhile_sublist (l := behind) Char.isDigit).length_le
            omega
          · exact nomatch h
        | some exponent =>
          dsimp only at h
          split at h
          · cases h
            omega
          · exact nomatch h

end PipeQuery.Json
