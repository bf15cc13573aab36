import PipeQuery.Expr.Error
import PipeQuery.Outcome
import PipeQuery.Text.Property

/-!
# The tokens of an expression

Tokens are read one at a time, since a slash begins a pattern where an operand is
expected and divides elsewhere.  What is ahead is either the end of the text or a
token together with the text it begins and the text behind it (`Ahead`).

A position is the length of the whole text less that of the text ahead.  It is
therefore never past the end, whatever is read.  `length_scan_le` says that
the text behind a token is shorter than the text it begins.
-/

namespace PipeQuery.Expr

/-- Where the text ahead begins in a text of `n` characters. -/
def positionOf (n : Nat) (ahead : List Char) : Nat := n - ahead.length

/-- The text without white space and comments in front; a comment that is not closed goes to
the end. -/
def skip (inComment : Bool) : List Char → List Char
  | [] => []
  | [c] => if inComment || isBlank c then [] else [c]
  | c :: d :: rest =>
    if inComment then
      if c = '*' && d = '/' then skip false rest else skip true (d :: rest)
    else if c = '/' && d = '*' then skip true rest
    else if isBlank c then skip false (d :: rest)
    else c :: d :: rest

/-- Whether a name may go on with this character. -/
def isNameChar (c : Char) : Bool := isAlphanumeric c || c = '_'

/-- A name at the beginning of a text, and the rest. -/
def nameAt (cs : List Char) : String × List Char :=
  (String.ofList (cs.takeWhile isNameChar), cs.dropWhile isNameChar)

/-- What a character after a backslash stands for. -/
def escape? : Char → Option Char
  | 'n' => some '\n'
  | 't' => some '\t'
  | 'r' => some '\r'
  | '\\' => some '\\'
  | '"' => some '"'
  | '\'' => some '\''
  | '/' => some '/'
  | _ => none

/-- The text up to a closing quote, and the rest.  There are no escapes in backticks. -/
def quotedAt (n start : Nat) (quote : Char) : List Char → Except Error (List Char × List Char)
  | [] => .error ⟨start, .unterminatedString⟩
  | c :: rest =>
    if c = quote then .ok ([], rest)
    else if c = '\\' && quote ≠ '\x60' then
      match rest with
      | [] => .error ⟨start, .unterminatedString⟩
      | e :: behind =>
        match escape? e with
        | none => .error ⟨positionOf n (c :: rest), .unsupportedEscape e⟩
        | some x => (quotedAt n start quote behind).map fun (text, after) => (x :: text, after)
    else (quotedAt n start quote rest).map fun (text, after) => (c :: text, after)

/-- Whether a letter begins an exponent. -/
def isExponentMark (c : Char) : Bool := c = 'e' || c = 'E'

/-- The characters of a number, and the rest.  Letters for an exponent may stand anywhere, a
sign only behind one, and one point before a digit. -/
def digitsAt (seenPoint afterMark : Bool) : List Char → List Char × List Char
  | [] => ([], [])
  | c :: rest =>
    if c.isDigit || isExponentMark c || ((c = '-' || c = '+') && afterMark) then
      let (digits, after) := digitsAt seenPoint (isExponentMark c) rest
      (c :: digits, after)
    else if c = '.' && !seenPoint && rest.head?.any Char.isDigit then
      let (digits, after) := digitsAt true false rest
      (c :: digits, after)
    else ([], c :: rest)

/-- The characters of a pattern up to the closing slash, and the rest.  A slash behind a
backslash loses the backslash. -/
def patternAt (start : Nat) : List Char → Except Error (List Char × List Char)
  | [] => .error ⟨start, .unterminatedRegex⟩
  | '/' :: rest => .ok ([], rest)
  | '\\' :: '/' :: rest => (patternAt start rest).map fun (p, after) => ('/' :: p, after)
  | '\\' :: c :: rest => (patternAt start rest).map fun (p, after) => ('\\' :: c :: p, after)
  | c :: rest => (patternAt start rest).map fun (p, after) => (c :: p, after)

/-- A pattern with its flags behind the opening slash, which stands at `start`, and the rest. -/
def regexAt (start : Nat) (cs : List Char) : Except Error (String × String × List Char) := do
  let (pattern, rest) ← patternAt start cs
  if pattern.isEmpty then .error ⟨start, .emptyRegex⟩
  else
    let (flags, rest) := nameAt rest
    return (String.ofList pattern, flags, rest)

/-- The token that is a single character. -/
def single? : Char → Option Token
  | '.' => some .dot
  | ',' => some .comma
  | ':' => some .colon
  | '?' => some .question
  | '(' => some .openParen
  | ')' => some .closeParen
  | '[' => some .openBracket
  | ']' => some .closeBracket
  | '\x7b' => some .openBrace
  | '\x7d' => some .closeBrace
  | '+' => some .plus
  | '-' => some .minus
  | '*' => some .star
  | '/' => some .slash
  | '%' => some .percent
  | '&' => some .ampersand
  | '=' => some .equal
  | '<' => some .less
  | '>' => some .greater
  | _ => none

/-- The token that is two characters. -/
def double? (c d : Char) : Option Token :=
  match c, d with
  | '!', '=' => some .notEqual
  | '<', '=' => some .lessEqual
  | '>', '=' => some .greaterEqual
  | '$', '$' => some (.variable "$")
  | _, _ => none

/-- The token at the beginning of `c :: rest` that is neither a sign nor two, and what is
behind it. -/
def scanWord (n : Nat) (c : Char) (rest : List Char) : Except Error (Token × List Char) :=
  let start := positionOf n (c :: rest)
  if c = '"' || c = '\'' then
    (quotedAt n start c rest).map fun (text, after) => (.string (String.ofList text), after)
  else if c = '\x60' then
    (quotedAt n start c rest).map fun (text, after) => (.name (String.ofList text), after)
  else if c = '$' then
    let (name, after) := nameAt rest
    .ok (.variable name, after)
  else if c.isDigit then
    let (digits, after) := digitsAt false false rest
    match Number.read? (c :: digits) with
    | some k => .ok (.number k, after)
    | none => .error ⟨start, .invalidNumber (String.ofList (c :: digits))⟩
  else if isAlphabetic c || c = '_' then
    .ok (.name (String.ofList (c :: rest.takeWhile isNameChar)), rest.dropWhile isNameChar)
  else .error ⟨start, .unexpectedCharacter c⟩

/-- The token at the beginning of `c :: rest`, and what is behind it. -/
def scan (n : Nat) (c : Char) (rest : List Char) : Except Error (Token × List Char) :=
  match rest.head?.bind (double? c) with
  | some t => .ok (t, rest.drop 1)
  | none =>
    match single? c with
    | some t => .ok (t, rest)
    | none => scanWord n c rest

/-! ## What is left -/

theorem length_skip_le (inComment : Bool) (cs : List Char) :
    (skip inComment cs).length ≤ cs.length := by
  fun_induction skip inComment cs <;> simp_all <;> omega

theorem length_quotedAt_lt {n start : Nat} {quote : Char} {cs text after : List Char}
    (h : quotedAt n start quote cs = .ok (text, after)) : after.length < cs.length := by
  fun_induction quotedAt n start quote cs generalizing text after with
  | case1 => cases h
  | case2 rest => cases h; simp
  | case3 => cases h
  | case4 => cases h
  | case5 _ _ _ e behind x _ ih =>
    obtain ⟨⟨text', after'⟩, hq, hr⟩ := map_eq_ok_iff.1 h
    cases hr
    have := ih hq
    simp only [List.length_cons]
    omega
  | case6 c rest _ _ ih =>
    obtain ⟨⟨text', after'⟩, hq, hr⟩ := map_eq_ok_iff.1 h
    cases hr
    exact Nat.lt_succ_of_lt (ih hq)

theorem length_digitsAt_le (seenPoint afterMark : Bool) (cs : List Char) :
    (digitsAt seenPoint afterMark cs).2.length ≤ cs.length := by
  fun_induction digitsAt seenPoint afterMark cs <;> simp_all <;> omega

theorem length_patternAt_lt {start : Nat} {cs p after : List Char}
    (h : patternAt start cs = .ok (p, after)) : after.length < cs.length := by
  fun_induction patternAt start cs generalizing p after with
  | case1 => cases h
  | case2 rest => cases h; simp
  | case3 rest ih | case4 c rest _ ih | case5 c rest _ _ _ ih =>
    obtain ⟨⟨p', after'⟩, hp, hr⟩ := map_eq_ok_iff.1 h
    cases hr
    have := ih hp
    simp only [List.length_cons]
    omega

theorem length_nameAt_le (cs : List Char) : (nameAt cs).2.length ≤ cs.length :=
  (List.dropWhile_sublist _).length_le

theorem length_regexAt_lt {start : Nat} {cs after : List Char} {pattern flags : String}
    (h : regexAt start cs = .ok (pattern, flags, after)) : after.length < cs.length := by
  unfold regexAt at h
  cases hp : patternAt start cs with
  | error e => simp [hp, bind, Except.bind] at h
  | ok r =>
    obtain ⟨p, rest⟩ := r
    have hlt := length_patternAt_lt hp
    simp only [hp, bind, Except.bind] at h
    split at h
    · cases h
    · simp only [pure, Except.pure, Except.ok.injEq, Prod.mk.injEq] at h
      rw [← h.2.2]
      exact Nat.lt_of_le_of_lt (length_nameAt_le rest) hlt

theorem length_scanWord_le {n : Nat} {c : Char} {rest after : List Char} {t : Token}
    (h : scanWord n c rest = .ok (t, after)) : after.length ≤ rest.length := by
  unfold scanWord at h
  split at h
  · obtain ⟨⟨text', after'⟩, hq, hr⟩ := map_eq_ok_iff.1 h
    cases hr
    exact Nat.le_of_lt (length_quotedAt_lt hq)
  · split at h
    · obtain ⟨⟨text', after'⟩, hq, hr⟩ := map_eq_ok_iff.1 h
      cases hr
      exact Nat.le_of_lt (length_quotedAt_lt hq)
    · split at h
      · cases h
        exact length_nameAt_le rest
      · split at h
        · have hle := length_digitsAt_le false false rest
          generalize digitsAt false false rest = parts at h hle
          simp only at h
          split at h
          · cases h
            exact hle
          · cases h
        · split at h
          · cases h
            exact (List.dropWhile_sublist _).length_le
          · cases h

/-- The text behind a token is shorter than the text it begins. -/
theorem length_scan_le {n : Nat} {c : Char} {rest after : List Char} {t : Token}
    (h : scan n c rest = .ok (t, after)) : after.length ≤ rest.length := by
  unfold scan at h
  split at h
  · cases h
    simp
  · split at h
    · cases h
      exact Nat.le_refl _
    · exact length_scanWord_le h

/-! ## What is ahead -/

/-- What is ahead in a text. -/
inductive Ahead where
  /-- The end. -/
  | finished
  /-- A token, the text it begins, and the text behind it. -/
  | token (t : Token) (source behind : List Char)

namespace Ahead

/-- A bound on the tokens ahead. -/
def size : Ahead → Nat
  | .finished => 0
  | .token _ _ behind => behind.length + 1

/-- Where what is ahead begins in a text of `n` characters. -/
def position (n : Nat) : Ahead → Nat
  | .finished => n
  | .token _ source _ => positionOf n source

/-- The first token. -/
def head? : Ahead → Option Token
  | .finished => none
  | .token t _ _ => some t

/-- A position is never past the end. -/
theorem position_le (n : Nat) (s : Ahead) : s.position n ≤ n := by
  cases s with
  | finished => exact Nat.le_refl n
  | token t source behind => exact Nat.sub_le _ _

end Ahead

/-- What is ahead in the last characters of a text of `n`. -/
def next (n : Nat) (cs : List Char) : Except Error Ahead :=
  match skip false cs with
  | [] => .ok .finished
  | c :: rest => (scan n c rest).map fun (t, behind) => .token t (c :: rest) behind

/-- There are no more tokens ahead than characters. -/
theorem size_next_le {n : Nat} {cs : List Char} {s : Ahead} (h : next n cs = .ok s) :
    s.size ≤ cs.length := by
  unfold next at h
  have hskip := length_skip_le false cs
  split at h
  · cases h
    exact Nat.zero_le _
  · rename_i c rest heq
    obtain ⟨⟨t, behind⟩, hs, hr⟩ := map_eq_ok_iff.1 h
    cases hr
    have := length_scan_le hs
    rw [heq, List.length_cons] at hskip
    simp only [Ahead.size]
    omega

end PipeQuery.Expr
