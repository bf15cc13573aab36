import PipeQuery.Outcome
import PipeQuery.Query.Token
import PipeQuery.Text.Trim

/-!
# The tokens of a text

`scanToken` reads one token from a text that begins with a character which is not
white space.  Besides the token it gives the characters the token takes, its
*span*, and the rest of the text; `scanToken_eq` says that span and rest make up
the text and that the span is not empty.  `lexFrom` goes on from there, moving
the position over white space and spans.
-/

namespace PipeQuery.Query

/-- Why no token can be read. -/
inductive Fault where
  /-- No token begins like this. -/
  | unexpectedChar (c : Char)
  /-- The quote is never closed. -/
  | unterminatedString
  /-- A backslash before a character without an escape, after the characters `before`. -/
  | invalidEscape (c : Char) (before : List Char)
  /-- The digits spell no number. -/
  | invalidNumber (text : List Char)

/-- The error at a token that begins at `start`. -/
def Fault.toError (start : Position) : Fault → LexError
  | .unexpectedChar c => .unexpectedChar c start
  | .unterminatedString => .unterminatedString start
  | .invalidEscape c before => .invalidEscape c (start.past before)
  | .invalidNumber text => .invalidNumber (String.ofList text) start

/-- Whether a name may go on with this character. -/
def isNameChar (c : Char) : Bool := isAlphanumeric c || c = '_'

/-- What goes on a name, and the rest: name characters, and dashes before a letter or digit. -/
def nameTail : List Char → List Char × List Char
  | [] => ([], [])
  | c :: rest =>
    if isNameChar c || (c = '-' && rest.head?.any isAlphanumeric) then
      let (tail, after) := nameTail rest
      (c :: tail, after)
    else ([], c :: rest)

/-- A name at the beginning of a text, which is empty if the first character is none of a
name, and the rest. -/
def nameAt : List Char → List Char × List Char
  | [] => ([], [])
  | c :: rest =>
    if isNameChar c then
      let (tail, after) := nameTail rest
      (c :: tail, after)
    else ([], c :: rest)

/-- What a character after a backslash stands for. -/
def escape? : Char → Option Char
  | 'n' => some '\n'
  | 't' => some '\t'
  | 'r' => some '\r'
  | '"' => some '"'
  | '\'' => some '\''
  | '\\' => some '\\'
  | _ => none

/-- The text up to a closing quote, the characters it takes with the quote, and the rest;
`before` are the characters of the token so far. -/
def scanQuoted (quote : Char) (before : List Char) :
    List Char → Except Fault (List Char × List Char × List Char)
  | [] => .error .unterminatedString
  | c :: rest =>
    if c = quote then .ok ([], [c], rest)
    else if c = '\\' then
      match rest with
      | [] => .error .unterminatedString
      | e :: rest =>
        match escape? e with
        | none => .error (.invalidEscape e before)
        | some x =>
          (scanQuoted quote (before ++ [c, e]) rest).map fun (text, span, after) =>
            (x :: text, c :: e :: span, after)
    else
      (scanQuoted quote (before ++ [c]) rest).map fun (text, span, after) =>
        (c :: text, c :: span, after)

/-- The digits of a number, with a point if digits follow it and there was none, and the
rest. -/
def digitsAt (seenPoint : Bool) : List Char → List Char × List Char
  | [] => ([], [])
  | c :: rest =>
    if c.isDigit then
      let (digits, after) := digitsAt seenPoint rest
      (c :: digits, after)
    else if c = '.' && !seenPoint && rest.head?.any Char.isDigit then
      let (digits, after) := digitsAt true rest
      (c :: digits, after)
    else ([], c :: rest)

/-- A number with this span, if it spells one. -/
def numberToken (span after : List Char) : Except Fault (Token × List Char × List Char) :=
  match Number.read? span with
  | some n => .ok (.number n, span, after)
  | none => .error (.invalidNumber span)

/-- The token that a name is. -/
def nameToken (name : List Char) : Token :=
  match String.ofList name with
  | "true" => .boolean true
  | "false" => .boolean false
  | "null" => .null
  | s => .identifier s

/-- The token at the beginning of `c :: rest`, its span and what follows it. -/
def scanToken (c : Char) (rest : List Char) : Except Fault (Token × List Char × List Char) :=
  match c with
  | '|' => .ok (.pipe, [c], rest)
  | ',' => .ok (.comma, [c], rest)
  | '=' => .ok (.equals, [c], rest)
  | '(' => .ok (.openParen, [c], rest)
  | ')' => .ok (.closeParen, [c], rest)
  | '#' =>
    let text := rest.takeWhile (· != '\n')
    .ok (.comment (String.ofList (trimChars text)), c :: text, rest.dropWhile (· != '\n'))
  | '"' =>
    (scanQuoted '"' [c] rest).map fun (text, span, after) =>
      (.field (String.ofList text), c :: span, after)
  | '\'' =>
    (scanQuoted '\'' [c] rest).map fun (text, span, after) =>
      (.string (String.ofList text), c :: span, after)
  | '-' =>
    match rest with
    | '-' :: rest =>
      let (name, after) := nameAt rest
      .ok (.flag (String.ofList name), c :: '-' :: name, after)
    | d :: _ =>
      if d.isDigit then
        let (digits, after) := digitsAt false rest
        numberToken (c :: digits) after
      else .error (.unexpectedChar c)
    | [] => .error (.unexpectedChar c)
  | _ =>
    if c.isDigit then
      let (digits, after) := digitsAt false (c :: rest)
      numberToken digits after
    else if isAlphabetic c || c = '_' then
      let (name, after) := nameTail rest
      .ok (nameToken (c :: name), c :: name, after)
    else .error (.unexpectedChar c)

/-! ## Spans -/

theorem nameTail_append (cs : List Char) : (nameTail cs).1 ++ (nameTail cs).2 = cs := by
  induction cs with
  | nil => rfl
  | cons c rest ih =>
    unfold nameTail
    split
    · simpa using ih
    · rfl

theorem nameAt_append (cs : List Char) : (nameAt cs).1 ++ (nameAt cs).2 = cs := by
  cases cs with
  | nil => rfl
  | cons c rest =>
    simp only [nameAt]
    split
    · simpa using nameTail_append rest
    · rfl

theorem digitsAt_append (seenPoint : Bool) (cs : List Char) :
    (digitsAt seenPoint cs).1 ++ (digitsAt seenPoint cs).2 = cs := by
  induction cs generalizing seenPoint with
  | nil => rfl
  | cons c rest ih =>
    unfold digitsAt
    split
    · simpa using ih seenPoint
    · split
      · simpa using ih true
      · rfl

theorem scanQuoted_eq {quote : Char} {cs : List Char} {before text span after : List Char}
    (h : scanQuoted quote before cs = .ok (text, span, after)) :
    cs = span ++ after ∧ span ≠ [] := by
  fun_induction scanQuoted quote before cs generalizing text span after with
  | case1 => cases h
  | case2 before rest => cases h; simp
  | case3 => cases h
  | case4 => cases h
  | case5 before e rest x he _ ih =>
    obtain ⟨⟨text', span', after'⟩, hs, hr⟩ := map_eq_ok_iff.1 h
    cases hr
    simp [(ih hs).1]
  | case6 before c rest hc hb ih =>
    obtain ⟨⟨text', span', after'⟩, hs, hr⟩ := map_eq_ok_iff.1 h
    cases hr
    simp [(ih hs).1]

theorem numberToken_eq {span after span' after' : List Char} {t : Token}
    (h : numberToken span after = .ok (t, span', after')) : span' = span ∧ after' = after := by
  unfold numberToken at h
  split at h
  · cases h; exact ⟨rfl, rfl⟩
  · cases h

/-- The first character is a digit of a number that begins with one. -/
theorem digitsAt_ne_nil {c : Char} (h : c.isDigit = true) (rest : List Char) :
    (digitsAt false (c :: rest)).1 ≠ [] := by
  simp [digitsAt, h]

/-- The span of a token and what follows it make up the text, and the span is not empty. -/
theorem scanToken_eq {c : Char} {rest : List Char} {t : Token} {span after : List Char}
    (h : scanToken c rest = .ok (t, span, after)) : c :: rest = span ++ after ∧ span ≠ [] := by
  unfold scanToken at h
  split at h
  · cases h; simp
  · cases h; simp
  · cases h; simp
  · cases h; simp
  · cases h; simp
  · cases h; simp [List.takeWhile_append_dropWhile]
  · obtain ⟨⟨text', span', after'⟩, hs, hr⟩ := map_eq_ok_iff.1 h
    cases hr
    simp [(scanQuoted_eq hs).1]
  · obtain ⟨⟨text', span', after'⟩, hs, hr⟩ := map_eq_ok_iff.1 h
    cases hr
    simp [(scanQuoted_eq hs).1]
  · split at h
    · simp only [Except.ok.injEq, Prod.mk.injEq] at h
      rw [← h.2.1, ← h.2.2]
      simp [nameAt_append]
    · split at h
      · rename_i d tail _ _
        have happ := digitsAt_append false (d :: tail)
        generalize digitsAt false (d :: tail) = parts at h happ
        obtain ⟨h1, h2⟩ := numberToken_eq h
        rw [h1, h2]
        simp [happ]
      · cases h
    · cases h
  · split at h
    · rename_i hd
      obtain ⟨rfl, rfl⟩ := numberToken_eq h
      exact ⟨(digitsAt_append _ _).symm, digitsAt_ne_nil hd rest⟩
    · split at h
      · cases h
        simp [nameTail_append]
      · cases h

/-- What follows a token is shorter than the text. -/
theorem length_scanToken_lt {c : Char} {rest : List Char} {t : Token} {span after : List Char}
    (h : scanToken c rest = .ok (t, span, after)) : after.length < rest.length + 1 := by
  obtain ⟨heq, hne⟩ := scanToken_eq h
  have hlen := congrArg List.length heq
  have := List.length_pos_iff.2 hne
  simp only [List.length_cons, List.length_append] at hlen
  omega

/-! ## All tokens -/

/-- The tokens of a text that begins at `p`. -/
def lexFrom (p : Position) (cs : List Char) : Tokens :=
  match _hcs : cs.dropWhile isBlank with
  | [] => .finished (p.past cs)
  | c :: rest =>
    let start := p.past (cs.takeWhile isBlank)
    match _hscan : scanToken c rest with
    | .error fault => .failed (fault.toError start)
    | .ok (t, span, after) => .token start t (lexFrom (start.past span) after)
termination_by cs.length
decreasing_by
  have h1 := length_scanToken_lt _hscan
  have h2 : (cs.dropWhile isBlank).length ≤ cs.length := (List.dropWhile_sublist _).length_le
  rw [_hcs] at h2
  simp only [List.length_cons] at h2
  omega

/-- The tokens of a query. -/
def lex (text : String) : Tokens := lexFrom .start text.toList

end PipeQuery.Query
