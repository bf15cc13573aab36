import PipeQuery.Regex.CharSet
import PipeQuery.Regex.Match
import PipeQuery.Text.Radix

/-!
# Patterns from text

`Regex.parse?` reads a pattern, or finds that the text is none.  A reading
function takes the text ahead and gives what it read with the text behind it.
Where one reads any number of things it is given a number of steps; each step
takes a character at least, so that as many steps as there are characters are
enough.

Flags hold from where they are set to the end of the group around them.
-/

namespace PipeQuery.Regex

/-- What flags are on. -/
structure Flags where
  /-- Case is ignored. -/
  ignoreCase : Bool := false
  /-- `^` and `$` stand for the beginning and the end of lines. -/
  multiLine : Bool := false
  /-- A point stands for line feeds too. -/
  dotAll : Bool := false
  /-- Repetitions are reluctant, and greedy where a question mark follows. -/
  reluctant : Bool := false
  /-- Characters are those of the Unicode standard, not of ASCII. -/
  unicode : Bool := true
  /-- Lines may end in a carriage return. -/
  returns : Bool := false
  /-- White space and comments are looked past. -/
  verbose : Bool := false

/-- What one item of a pattern is. -/
inductive Atom where
  /-- A character. -/
  | char (c : Char)
  /-- One character of a set. -/
  | set (s : CharSet)
  /-- A condition. -/
  | assert (a : Assertion)

/-- What is read, and the text behind it. -/
abbrev Read (α : Type) := α × List Char

namespace Flags

/-- The text behind white space and comments. -/
def skipVerbose (inComment : Bool) : List Char → List Char
  | [] => []
  | c :: rest =>
    if inComment then skipVerbose (c ≠ '\n') rest
    else if isBlank c then skipVerbose false rest
    else if c = '#' then skipVerbose true rest
    else c :: rest

/-- The text behind what is looked past. -/
def skip (f : Flags) (cs : List Char) : List Char :=
  if f.verbose then skipVerbose false cs else cs

/-- The set with what the flags add to it. -/
def fold (f : Flags) (s : CharSet) : CharSet :=
  if !f.ignoreCase then s else if f.unicode then s.ignoringCase else s.ignoringAsciiCase

/-- The characters that are not in a set; only among the characters of Unicode. -/
def complement? (f : Flags) (s : CharSet) : Option CharSet :=
  if f.unicode then some s.complement else none

/-- The set or its complement. -/
def select? (f : Flags) (negated : Bool) (s : CharSet) : Option CharSet :=
  if negated then f.complement? s else some s

/-- The set in its narrow sense if the flags say so. -/
def narrow (f : Flags) (s : CharSet) : CharSet := if f.unicode then s else s.ascii

/-! ## Escapes -/

/-- So many hexadecimal digits. -/
def digitsAt (f : Flags) : Nat → List Char → Option (Read (List Char))
  | 0, cs => some ([], cs)
  | n + 1, cs =>
    match cs with
    | [] => none
    | c :: rest => do
      let (digits, rest) ← f.digitsAt n (f.skip rest)
      return (c :: digits, rest)

/-- A character by its number, behind the letter that says how many digits there are. -/
def hexAt (f : Flags) (count : Nat) (cs : List Char) : Option (Read Char) := do
  let (digits, rest) ←
    match f.skip cs with
    | '\x7b' :: rest =>
      if rest.contains '\x7d' then
        let digits := rest.takeWhile (· ≠ '\x7d')
        some (if f.verbose then digits.filter (!isBlank ·) else digits,
          (rest.dropWhile (· ≠ '\x7d')).drop 1)
      else none
    | cs => f.digitsAt count cs
  return (← charAt? (← numberIn? 16 digits), f.skip rest)

/-- The value of a property with a name, a sign and a value. -/
def propertyValue (name : List Char) : Bool × List Char :=
  let sign := fun c => c = ':' || c = '='
  if name.any sign then
    let before := name.takeWhile (!sign ·)
    let value := (name.dropWhile (!sign ·)).drop 1
    (before.getLast? == some '!', value)
  else (false, name)

/-- A property, behind the letter that begins it. -/
def propertyAt (f : Flags) (negated : Bool) (cs : List Char) : Option (Read Atom) :=
  if !f.unicode then none
  else match f.skip cs with
    | [] | '\\' :: _ => none
    | '\x7b' :: rest =>
      if rest.contains '\x7d' then do
        let (differs, name) := propertyValue (rest.takeWhile (· ≠ '\x7d'))
        let s ← CharSet.ofProperty? name
        return (.set (← f.select? (negated != differs) (f.fold s)),
          (rest.dropWhile (· ≠ '\x7d')).drop 1)
      else none
    | c :: rest => do
      return (.set (← f.select? negated (f.fold (← CharSet.ofProperty? [c]))), f.skip rest)

/-- The edge with a name. -/
def edgeNamed? : String → Option Edge
  | "start" => some .wordStart
  | "end" => some .wordEnd
  | "start-half" => some .noWordBefore
  | "end-half" => some .noWordBehind
  | _ => none

/-- A condition on words. -/
def edge (f : Flags) (e : Edge) : Atom := .assert (.edge e (f.narrow isWordChar))

/-- An end of a word, or what is named between braces behind the letter.  Braces with anything
else in them are left for a repetition. -/
def boundaryAt (f : Flags) (cs : List Char) : Option (Read Atom) :=
  let isNameChar := fun c : Char => c = '-' || c.isAlpha
  match cs with
  | '\x7b' :: rest =>
    match f.skip rest with
    | [] => none
    | c :: rest =>
      if isNameChar c then
        let name := (c :: rest).takeWhile isNameChar
        match f.skip ((c :: rest).dropWhile isNameChar) with
        | '\x7d' :: rest => do return (f.edge (← edgeNamed? (String.ofList name)), rest)
        | _ => none
      else some (f.edge .boundary, cs)
  | _ => some (f.edge .boundary, cs)

/-- Whether a character may follow a backslash and then stands for itself. -/
def isEscapable (c : Char) : Bool :=
  c.toNat < 0x80 && !c.isAlphanum && c ≠ '<' && c ≠ '>'

/-- What a backslash begins, behind the backslash. -/
def escapeAt (f : Flags) : List Char → Option (Read Atom)
  | [] => none
  | c :: rest =>
    let setOf (negated : Bool) (s : CharSet) : Option (Read Atom) := do
      return (.set (← f.select? negated (f.narrow s)), rest)
    let charOf (c : Char) : Option (Read Atom) := some (.char c, rest)
    match c with
    | 'x' => (f.hexAt 2 rest).map fun (c, rest) => (.char c, rest)
    | 'u' => (f.hexAt 4 rest).map fun (c, rest) => (.char c, rest)
    | 'U' => (f.hexAt 8 rest).map fun (c, rest) => (.char c, rest)
    | 'p' => f.propertyAt false rest
    | 'P' => f.propertyAt true rest
    | 'd' => setOf false isDecimalDigit
    | 'D' => setOf true isDecimalDigit
    | 's' => setOf false isBlank
    | 'S' => setOf true isBlank
    | 'w' => setOf false isWordChar
    | 'W' => setOf true isWordChar
    | 'a' => charOf '\x07'
    | 'f' => charOf '\x0c'
    | 't' => charOf '\t'
    | 'n' => charOf '\n'
    | 'r' => charOf '\r'
    | 'v' => charOf '\x0b'
    | 'A' => some (.assert .textStart, rest)
    | 'z' => some (.assert .textEnd, rest)
    | 'b' => f.boundaryAt rest
    | 'B' => some (f.edge .inside, rest)
    | '<' => some (f.edge .wordStart, rest)
    | '>' => some (f.edge .wordEnd, rest)
    | _ => if isEscapable c then charOf c else none

/-! ## Sets in brackets -/

/-- An item in brackets: a character or what a backslash begins. -/
def bracketItemAt (f : Flags) : List Char → Option (Read Atom)
  | [] => none
  | '\\' :: rest => f.escapeAt rest
  | c :: rest => if f.unicode || c.toNat < 0x80 then some (.char c, rest) else none

/-- The set that an item in brackets is. -/
def itemSet? : Atom → Option CharSet
  | .char c => some (· = c)
  | .set s => some s
  | .assert _ => none

/-- An item in brackets, or a range between two characters. -/
def rangeAt (f : Flags) (cs : List Char) : Option (Read CharSet) := do
  let (first, rest) ← f.bracketItemAt cs
  let rest := f.skip rest
  match rest with
  | [] => none
  | '-' :: behind =>
    match f.skip behind with
    | ']' :: _ | '-' :: _ => return (← itemSet? first, rest)
    | [] => none
    | behind =>
      match first, ← f.bracketItemAt behind with
      | .char a, (.char b, rest) => if a ≤ b then some (.range a b, rest) else none
      | _, _ => none
  | _ => return (← itemSet? first, rest)

/-- A class with a name, behind the first bracket.  Nothing else is one, and what is none
is read as a set in brackets. -/
def namedClassAt (f : Flags) : List Char → Option (Read CharSet)
  | ':' :: rest =>
    let (negated, rest) := match rest with
      | '^' :: rest => (true, rest)
      | _ => (false, rest)
    match rest.dropWhile (· ≠ ':') with
    | ':' :: ']' :: behind => do
      let s ← CharSet.ofClassName? (String.ofList (rest.takeWhile (· ≠ ':')))
      return (← f.select? negated (f.fold s), behind)
    | _ => none
  | _ => none

/-- How sets in brackets are put together. -/
def combine? : Char → Option (CharSet → CharSet → CharSet)
  | '&' => some fun s t c => s c && t c
  | '-' => some fun s t c => s c && !t c
  | '~' => some fun s t c => s c != t c
  | _ => none

/-- The dashes in front of a set in brackets, and a closing bracket that comes first. -/
def leading (f : Flags) (cs : List Char) : CharSet × List Char :=
  match cs with
  | '-' :: rest => ((· = '-'), f.skip (rest.dropWhile (· = '-')))
  | ']' :: rest => ((· = ']'), f.skip rest)
  | _ => (fun _ => false, cs)

mutual

/-- A set in brackets, behind the opening one. -/
def bracketsAt (f : Flags) : (steps : Nat) → List Char → Option (Read CharSet)
  | 0, _ => none
  | steps + 1, cs => do
    let cs := f.skip cs
    let (negated, cs) := match cs with
      | '^' :: rest => (true, f.skip rest)
      | _ => (false, cs)
    let (s, rest) := f.leading cs
    let (s, rest) ← f.bracketsFrom steps id s rest
    return (← f.select? negated (f.fold s), rest)

/-- The rest of a set in brackets: `before` puts what came before an operator together with
the items since, `s`. -/
def bracketsFrom (f : Flags) : (steps : Nat) → (before : CharSet → CharSet) → CharSet →
    List Char → Option (Read CharSet)
  | 0, _, _, _ => none
  | steps + 1, before, s, cs =>
    match f.skip cs with
    | [] => none
    | ']' :: rest => some (before s, rest)
    | '[' :: rest =>
      match f.namedClassAt rest with
      | some (t, rest) => f.bracketsFrom steps before (s.union t) rest
      | none => do
        let (t, rest) ← f.bracketsAt steps rest
        f.bracketsFrom steps before (s.union t) rest
    | c :: rest =>
      match combine? c, rest with
      | some op, d :: behind =>
        if d = c then
          f.bracketsFrom steps (fun t => op (f.fold (before s)) (f.fold t)) (fun _ => false) behind
        else do
          let (t, rest) ← f.rangeAt (c :: rest)
          f.bracketsFrom steps before (s.union t) rest
      | _, _ => do
        let (t, rest) ← f.rangeAt (c :: rest)
        f.bracketsFrom steps before (s.union t) rest

end

/-! ## Repetitions -/

/-- The largest count. -/
def countLimit : Nat := 2 ^ 32

/-- A count. -/
def countAt (f : Flags) (cs : List Char) : Option (Read Nat) :=
  let isPart := fun c : Char => c.isDigit || (f.verbose && isBlank c)
  let cs := cs.dropWhile isBlank
  let digits := (cs.takeWhile isPart).filter Char.isDigit
  let n := Nat.ofDigitChars 10 digits 0
  if digits.isEmpty || countLimit ≤ n then none
  else some (n, f.skip ((cs.dropWhile isPart).dropWhile isBlank))

/-- The bounds of a repetition, behind the opening brace. -/
def boundsAt (f : Flags) (cs : List Char) : Option (Read (Nat × Option Nat)) := do
  let (least, rest) ← f.countAt (f.skip cs)
  match rest with
  | '\x7d' :: rest => return ((least, some least), f.skip rest)
  | ',' :: rest =>
    match f.skip rest with
    | '\x7d' :: rest => return ((least, none), f.skip rest)
    | rest =>
      let (most, rest) ← f.countAt rest
      match rest with
      | '\x7d' :: rest => if least ≤ most then some ((least, some most), f.skip rest) else none
      | _ => none
  | _ => none

/-- A repetition of a pattern, behind its bounds: a question mark turns its preference round. -/
def repeated (f : Flags) (p : Pattern) (least : Nat) (most : Option Nat) (cs : List Char) :
    Pattern × List Char :=
  match cs with
  | '?' :: rest => (.many p least most f.reluctant, rest)
  | _ => (.many p least most (!f.reluctant), cs)

/-! ## Groups -/

/-- Whether a name of a group may have this character. -/
def isGroupNameChar (first : Bool) (c : Char) : Bool :=
  c = '_' || (if first then isAlphabetic c else c = '.' || c = '[' || c = ']' || isAlphanumeric c)

/-- The name of a group, behind the opening angle bracket. -/
def groupNameAt (cs : List Char) : Option (Read String) :=
  let name := cs.takeWhile (· ≠ '>')
  match cs.dropWhile (· ≠ '>'), name with
  | _ :: rest, c :: tail =>
    if isGroupNameChar true c && tail.all (isGroupNameChar false) then
      some (String.ofList name, rest)
    else none
  | _, _ => none

/-- The flags with one flag set. -/
def set? (f : Flags) (letter : Char) (on : Bool) : Option Flags :=
  match letter with
  | 'i' => some { f with ignoreCase := on }
  | 'm' => some { f with multiLine := on }
  | 's' => some { f with dotAll := on }
  | 'U' => some { f with reluctant := on }
  | 'u' => some { f with unicode := on }
  | 'R' => some { f with returns := on }
  | 'x' => some { f with verbose := on }
  | _ => none

/-- The flags with letters before a dash switched on and those behind it off.  No letter may
come twice, and the dash needs one behind it. -/
def setAll? (f : Flags) (letters : List Char) : Option Flags :=
  let on := letters.takeWhile (· ≠ '-')
  let behind := letters.dropWhile (· ≠ '-')
  let off := behind.drop 1
  if (on ++ off).eraseDups.length ≠ (on ++ off).length || (!behind.isEmpty && off.isEmpty) then none
  else do
    let f ← on.foldlM (fun f c => f.set? c true) f
    off.foldlM (fun f c => f.set? c false) f

end Flags

/-- The groups so far. -/
structure Groups where
  /-- How many there are. -/
  count : Nat
  /-- Names of some of them. -/
  names : List (String × Nat)

/-- What an opening parenthesis begins. -/
inductive Opening where
  /-- A group that captures. -/
  | capture (number : Nat)
  /-- A group that does not capture, under these flags. -/
  | plain (f : Flags)
  /-- Flags for the rest of the group around. -/
  | flags (f : Flags)

/-- What begins behind an opening parenthesis, and the groups with it. -/
def openingAt (f : Flags) (groups : Groups) (cs : List Char) : Option (Read (Opening × Groups)) :=
  let named (rest : List Char) : Option (Read (Opening × Groups)) := do
    let (name, rest) ← Flags.groupNameAt rest
    if (groups.names.lookup name).isSome then none
    else
      let number := groups.count + 1
      return ((.capture number, ⟨number, groups.names ++ [(name, number)]⟩), rest)
  match f.skip cs with
  | '?' :: 'P' :: '<' :: rest => named rest
  | '?' :: '<' :: rest =>
    match rest with
    | '=' :: _ | '!' :: _ => none
    | _ => named rest
  | '?' :: rest =>
    let isLetter := fun c => c ≠ ':' && c ≠ ')'
    let letters := rest.takeWhile isLetter
    match rest.dropWhile isLetter with
    | ':' :: behind => do return ((.plain (← f.setAll? letters), groups), behind)
    | _ :: behind =>
      if letters.isEmpty then none
      else do return ((.flags (← f.setAll? letters), groups), behind)
    | [] => none
  | rest => some ((.capture (groups.count + 1), ⟨groups.count + 1, groups.names⟩), rest)

/-- What has been read of a group. -/
structure Sequence where
  /-- The alternatives before, the latest first. -/
  alternatives : List Pattern := []
  /-- The items of the last alternative before its last item, the latest first. -/
  items : List Pattern := []
  /-- The last item, which may be repeated. -/
  last : Option Pattern := none

namespace Sequence

/-- The items of the last alternative with the last item among them. -/
def allItems (s : Sequence) : List Pattern := s.last.toList ++ s.items

/-- One item more. -/
def push (s : Sequence) (p : Pattern) : Sequence := { s with items := s.allItems, last := some p }

/-- Flags come behind the last item, which can then not be repeated. -/
def close (s : Sequence) : Sequence := { s with items := s.allItems, last := none }

/-- A new alternative. -/
def branch (s : Sequence) : Sequence :=
  { alternatives := Pattern.seqs s.allItems.reverse :: s.alternatives }

/-- The pattern that has been read. -/
def pattern (s : Sequence) : Pattern := Pattern.firstOf s.branch.alternatives.reverse

end Sequence

/-- The pattern that an atom is. -/
def atomPattern (f : Flags) : Atom → Pattern
  | .char c => .char (f.fold (· = c))
  | .set s => .char s
  | .assert a => .assert a

/-- The set of a point. -/
def pointSet? (f : Flags) : Option CharSet :=
  if !f.unicode then none
  else if f.dotAll then some fun _ => true
  else if f.returns then some fun c => c ≠ '\n' && c ≠ '\r'
  else some (· ≠ '\n')

/-- A pattern up to the end of the group around it, after what `s` has of it. -/
def patternAt : (steps : Nat) → Flags → Groups → Sequence → List Char →
    Option (Read (Pattern × Groups))
  | 0, _, _, _, _ => none
  | steps + 1, f, groups, s, cs =>
    let item (p : Pattern) (rest : List Char) := patternAt steps f groups (s.push p) rest
    let again (least : Nat) (most : Option Nat) (rest : List Char) :
        Option (Read (Pattern × Groups)) := do
      let p ← s.last
      let (p, rest) := f.repeated p least most rest
      patternAt steps f groups { s with last := some p } rest
    match f.skip cs with
    | [] => some ((s.pattern, groups), [])
    | c :: rest =>
      match c with
      | ')' => some ((s.pattern, groups), c :: rest)
      | '|' => patternAt steps f groups s.branch rest
      | '*' => again 0 none rest
      | '+' => again 1 none rest
      | '?' => again 0 (some 1) rest
      | '\x7b' => do
        let ((least, most), rest) ← f.boundsAt rest
        again least most rest
      | '(' => do
        let ((opening, groups), rest) ← openingAt f groups rest
        match opening with
        | .flags f => patternAt steps f groups s.close rest
        | .plain inner =>
          match ← patternAt steps inner groups {} rest with
          | ((p, groups), ')' :: rest) => patternAt steps f groups (s.push p) rest
          | _ => none
        | .capture number =>
          match ← patternAt steps f groups {} rest with
          | ((p, groups), ')' :: rest) => patternAt steps f groups (s.push (.group number p)) rest
          | _ => none
      | '[' => do
        let (set, rest) ← f.bracketsAt steps rest
        item (.char set) rest
      | '\\' => do
        let (atom, rest) ← f.escapeAt rest
        item (atomPattern f atom) rest
      | '.' => do item (.char (← pointSet? f)) rest
      | '^' =>
        item (.assert (if f.multiLine then .lineStart f.returns else .textStart)) rest
      | '$' => item (.assert (if f.multiLine then .lineEnd f.returns else .textEnd)) rest
      | _ => item (.char (f.fold (· = c))) rest

/-- How large a pattern may be. -/
def sizeLimit : Nat := 2 ^ 18

/-- The pattern that a text spells. -/
def parse? (text : String) (ignoreCase multiLine : Bool) : Option Regex :=
  let cs := text.toList
  match patternAt (cs.length + 1) { ignoreCase, multiLine } ⟨0, []⟩ {} cs with
  | some ((pattern, groups), []) =>
    if pattern.size ≤ sizeLimit then some ⟨pattern, groups.names⟩ else none
  | _ => none

end PipeQuery.Regex
