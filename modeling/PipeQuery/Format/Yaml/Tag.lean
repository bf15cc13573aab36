import PipeQuery.Format.Yaml.Spot
import PipeQuery.Text.Radix

/-!
# Names, tags and directives

An anchor and what refers to it have a name.  A tag is a suffix behind a handle, which
stands for the text that a directive gives it, or a whole text between angle brackets.
-/

namespace PipeQuery.Yaml

/-- The characters of names. -/
def isNameChar (c : Char) : Bool :=
  ('0' ≤ c && c ≤ '9') || ('A' ≤ c && c ≤ 'Z') || ('a' ≤ c && c ≤ 'z') || c = '_' || c = '-'

/-- A name in front, which may be empty, and what is behind it. -/
def nameAt (ahead : List Spot) : List Char × List Spot :=
  ((ahead.takeWhile fun s => isNameChar s.char).map (·.char),
    ahead.dropWhile fun s => isNameChar s.char)

/-- The name of an anchor, and what is behind it.  A mark or the end of a word ends it. -/
def anchorAt (ahead : List Spot) : Option (String × List Spot) :=
  let (name, after) := nameAt ahead
  let ends := after.head?.any fun s =>
    ['?', ':', ',', ']', '\x7d', '%', '@', '\x60'].contains s.char
  if name.isEmpty || !(ends || atWordEnd after) then none else some (String.ofList name, after)

/-! ## Tags -/

/-- A tag as it is written. -/
structure Tag where
  /-- What stands for the beginning of the tag; a whole tag has none. -/
  handle : List Char
  /-- What follows. -/
  suffix : List Char

/-- The characters of tags.  Those that a whole tag may have beyond others are marks in
collections. -/
def isTagChar (isWhole : Bool) (c : Char) : Bool :=
  isNameChar c ||
    [';', '/', '?', ':', '@', '&', '=', '+', '$', '.', '!', '~', '*', '\'', '(', ')'].contains c ||
    (isWhole && [',', '[', ']'].contains c)

/-- The bytes of the text of a tag, and what is behind it.  A percent sign stands before a
byte in hexadecimal. -/
def tagBytes (isWhole : Bool) : List Spot → Option (List UInt8 × List Spot)
  | [] => some ([], [])
  | s :: rest =>
    if s.char = '%' then
      match rest with
      | high :: low :: behind => do
        let byte ← numberIn? 16 [high.char, low.char]
        let (bytes, after) ← tagBytes isWhole behind
        return (byte.toUInt8 :: bytes, after)
      | _ => none
    else if isTagChar isWhole s.char then
      (tagBytes isWhole rest).map fun (bytes, after) => (s.char.toNat.toUInt8 :: bytes, after)
    else some ([], s :: rest)

/-- The text of a tag, and what is behind it. -/
def tagTextAt (isWhole : Bool) (ahead : List Spot) : Option (List Char × List Spot) := do
  let (bytes, after) ← tagBytes isWhole ahead
  let text ← String.fromUTF8? ⟨bytes.toArray⟩
  return (text.toList, after)

/-- The tag behind an exclamation mark, and what is behind it. -/
def tagBodyAt (ahead : List Spot) : Option (Tag × List Spot) :=
  if ahead.head?.any (·.char = '<') then do
    let (text, after) ← tagTextAt true ahead.tail
    if !text.isEmpty && after.head?.any (·.char = '>') then return (⟨[], text⟩, after.tail)
    else none
  else
    let (name, after) := nameAt ahead
    if after.head?.any (·.char = '!') then do
      let (text, after) ← tagTextAt false after.tail
      if text.isEmpty then none else return (⟨'!' :: name ++ ['!'], text⟩, after)
    else do
      let (text, after) ← tagTextAt false after
      let suffix := name ++ text
      return (if suffix.isEmpty then ⟨[], ['!']⟩ else ⟨['!'], suffix⟩, after)

/-- The tag behind an exclamation mark, which the end of a word ends or a comma, and what is
behind it. -/
def tagAt (inFlow : Bool) (ahead : List Spot) : Option (Tag × List Spot) := do
  let (tag, after) ← tagBodyAt ahead
  if atWordEnd after || (inFlow && after.head?.any (·.char = ',')) then return (tag, after)
  else none

/-! ## Directives -/

/-- What is said before a document. -/
inductive Directive where
  /-- The version of the language. -/
  | version (major minor : Nat)
  /-- The text that a handle of tags stands for. -/
  | handle (name text : List Char)

/-- A number of at most nine digits, and what is behind it. -/
def versionNumberAt (ahead : List Spot) : Option (Nat × List Spot) :=
  let digits := (ahead.takeWhile (·.char.isDigit)).map (·.char)
  if digits.isEmpty || 9 < digits.length then none
  else some (Nat.ofDigitChars 10 digits 0, ahead.dropWhile (·.char.isDigit))

/-- The text behind white space. -/
def skipSpace (ahead : List Spot) : List Spot := ahead.dropWhile fun s => isSpace s.char

/-- A version, and what is behind it. -/
def versionAt (ahead : List Spot) : Option (Directive × List Spot) := do
  let (major, after) ← versionNumberAt (skipSpace ahead)
  if after.head?.any (·.char = '.') then
    let (minor, after) ← versionNumberAt after.tail
    return (.version major minor, after)
  else none

/-- A handle between exclamation marks, or one mark alone, and what is behind it. -/
def handleAt (ahead : List Spot) : Option (List Char × List Spot) :=
  if ahead.head?.any (·.char = '!') then
    let (name, after) := nameAt ahead.tail
    if after.head?.any (·.char = '!') then some ('!' :: name ++ ['!'], after.tail)
    else if name.isEmpty then some (['!'], after)
    else none
  else none

/-- A handle with its text, and what is behind it. -/
def handleTextAt (ahead : List Spot) : Option (Directive × List Spot) := do
  let (name, after) ← handleAt (skipSpace ahead)
  let (text, behind) ← tagTextAt true (skipSpace after)
  if after.head?.any (isSpace ·.char) && !text.isEmpty && atWordEnd behind then
    return (.handle name text, behind)
  else none

/-- What a directive with this name says, and what is behind it. -/
def directiveBodyAt (name : List Char) (ahead : List Spot) : Option (Directive × List Spot) :=
  if !atWordEnd ahead then none
  else if name = "YAML".toList then versionAt ahead
  else if name = "TAG".toList then handleTextAt ahead
  else none

/-- The directive behind a percent sign, and the lines behind its own. -/
def directiveAt (ahead : List Spot) : Option (Directive × List Spot) := do
  let (directive, after) ← directiveBodyAt (nameAt ahead).1 (nameAt ahead).2
  let lines ← lineBehind? after
  return (directive, lines)

/-! ## What is left -/

theorem length_dropWhile_spots_le (p : Spot → Bool) (ahead : List Spot) :
    (ahead.dropWhile p).length ≤ ahead.length :=
  (List.dropWhile_sublist _).length_le

theorem length_nameAt_le (ahead : List Spot) : (nameAt ahead).2.length ≤ ahead.length :=
  length_dropWhile_spots_le _ _

theorem length_anchorAt_le {ahead after : List Spot} {name : String}
    (h : anchorAt ahead = some (name, after)) : after.length ≤ ahead.length := by
  have := length_nameAt_le ahead
  unfold anchorAt at h
  grind

theorem length_tagBytes_le {isWhole : Bool} {ahead after : List Spot} {bytes : List UInt8}
    (h : tagBytes isWhole ahead = some (bytes, after)) : after.length ≤ ahead.length := by
  induction hn : ahead.length using Nat.strongRecOn generalizing ahead bytes after with
  | ind n ih =>
    subst hn
    cases ahead with
    | nil =>
      cases h
      exact Nat.le_refl _
    | cons s rest =>
      unfold tagBytes at h
      split at h
      · split at h
        · rename_i high low behind
          simp only [Option.bind_eq_bind, Option.bind_eq_some_iff, Option.pure_def] at h
          obtain ⟨byte, -, ⟨bytes', after'⟩, htail, heq⟩ := h
          cases heq
          have := ih behind.length (by simp only [List.length_cons]; omega) htail rfl
          simp only [List.length_cons]
          omega
        · cases h
      · split at h
        · obtain ⟨⟨bytes', after'⟩, htail, heq⟩ := Option.map_eq_some_iff.1 h
          cases heq
          exact Nat.le_succ_of_le (ih rest.length (Nat.lt_succ_self _) htail rfl)
        · cases h
          exact Nat.le_refl _

theorem length_tagTextAt_le {isWhole : Bool} {ahead after : List Spot} {text : List Char}
    (h : tagTextAt isWhole ahead = some (text, after)) : after.length ≤ ahead.length := by
  simp only [tagTextAt, Option.bind_eq_bind, Option.bind_eq_some_iff, Option.pure_def] at h
  obtain ⟨⟨bytes, rest⟩, hb, _, _, h⟩ := h
  cases h
  exact length_tagBytes_le hb

theorem length_tagBodyAt_le {ahead after : List Spot} {tag : Tag}
    (h : tagBodyAt ahead = some (tag, after)) : after.length ≤ ahead.length := by
  have hname := length_nameAt_le ahead
  unfold tagBodyAt at h
  simp only [Option.bind_eq_bind, Option.pure_def] at h
  split at h
  · obtain ⟨⟨text, rest⟩, ht, h⟩ := Option.bind_eq_some_iff.1 h
    have := length_tagTextAt_le ht
    grind
  · split at h
    · obtain ⟨⟨text, rest⟩, ht, h⟩ := Option.bind_eq_some_iff.1 h
      have := length_tagTextAt_le ht
      grind
    · obtain ⟨⟨text, rest⟩, ht, h⟩ := Option.bind_eq_some_iff.1 h
      have := length_tagTextAt_le ht
      grind

theorem length_tagAt_le {inFlow : Bool} {ahead after : List Spot} {tag : Tag}
    (h : tagAt inFlow ahead = some (tag, after)) : after.length ≤ ahead.length := by
  obtain ⟨⟨_, rest⟩, ht, h⟩ := Option.bind_eq_some_iff.1 h
  have := length_tagBodyAt_le ht
  grind

theorem length_versionNumberAt_le {ahead after : List Spot} {n : Nat}
    (h : versionNumberAt ahead = some (n, after)) : after.length ≤ ahead.length := by
  have := length_dropWhile_spots_le (·.char.isDigit) ahead
  unfold versionNumberAt at h
  grind

theorem length_versionAt_le {ahead after : List Spot} {directive : Directive}
    (h : versionAt ahead = some (directive, after)) : after.length ≤ ahead.length := by
  obtain ⟨⟨_, rest⟩, hmajor, h⟩ := Option.bind_eq_some_iff.1 h
  have h₁ := length_versionNumberAt_le hmajor
  have h₂ : (skipSpace ahead).length ≤ ahead.length := length_dropWhile_spots_le _ _
  simp only at h
  split at h
  · obtain ⟨⟨_, behind⟩, hminor, h⟩ := Option.bind_eq_some_iff.1 h
    have := length_versionNumberAt_le hminor
    cases h
    simp only [List.length_tail] at *
    omega
  · cases h

theorem length_handleAt_le {ahead after : List Spot} {name : List Char}
    (h : handleAt ahead = some (name, after)) : after.length ≤ ahead.length := by
  have := length_nameAt_le ahead.tail
  unfold handleAt at h
  grind

theorem length_handleTextAt_le {ahead after : List Spot} {directive : Directive}
    (h : handleTextAt ahead = some (directive, after)) : after.length ≤ ahead.length := by
  obtain ⟨⟨_, rest⟩, hname, h⟩ := Option.bind_eq_some_iff.1 h
  obtain ⟨⟨_, behind⟩, htext, h⟩ := Option.bind_eq_some_iff.1 h
  have h₁ := length_handleAt_le hname
  have h₂ := length_tagTextAt_le htext
  have h₃ : (skipSpace ahead).length ≤ ahead.length := length_dropWhile_spots_le _ _
  have h₄ : (skipSpace rest).length ≤ rest.length := length_dropWhile_spots_le _ _
  grind

theorem length_directiveBodyAt_le {name : List Char} {ahead after : List Spot}
    {directive : Directive} (h : directiveBodyAt name ahead = some (directive, after)) :
    after.length ≤ ahead.length := by
  unfold directiveBodyAt at h
  split at h
  · cases h
  · split at h
    · exact length_versionAt_le h
    · split at h
      · exact length_handleTextAt_le h
      · cases h

theorem length_directiveAt_le {ahead after : List Spot} {directive : Directive}
    (h : directiveAt ahead = some (directive, after)) : after.length ≤ ahead.length := by
  obtain ⟨⟨_, rest⟩, hd, h⟩ := Option.bind_eq_some_iff.1 h
  obtain ⟨lines, hl, h⟩ := Option.bind_eq_some_iff.1 h
  cases h
  have h₁ := length_directiveBodyAt_le hd
  have h₂ := length_lineBehind?_le hl
  have h₃ := length_nameAt_le ahead
  omega

end PipeQuery.Yaml
