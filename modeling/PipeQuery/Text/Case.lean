import PipeQuery.Text.CaseTable
import PipeQuery.Text.Property

/-!
# Upper and lower case

The case of a text by the full mappings of the Unicode standard: one character
may become several, and a capital sigma at the end of a word has a lower case of
its own.  `caseOrbit` gives the characters that differ from one in case only;
patterns that ignore case look at all of them.
-/

namespace PipeQuery

/-- The other case of a character by the runs, or the character itself. -/
def mapByRuns (runs : List CaseRun) (c : Char) : Char :=
  match runs.find? (·.contains c.toNat) with
  | some run => Char.ofNat (c.toNat + run.distance).toNat
  | none => c

/-- The upper case of a character if it is one character, else the character itself. -/
def simpleUpper (c : Char) : Char :=
  if c.toNat < 0x80 then c.toUpper else mapByRuns upperRuns c

/-- The lower case of a character if it is one character, else the character itself. -/
def simpleLower (c : Char) : Char :=
  if c.toNat < 0x80 then c.toLower else mapByRuns lowerRuns c

/-- The upper case of a character. -/
def upperChars (c : Char) : List Char :=
  if c.toNat < 0x80 then [c.toUpper]
  else match upperSpecials.find? (·.1 == c.toNat) with
    | some (_, codes) => codes.map Char.ofNat
    | none => [simpleUpper c]

/-- The lower case of a character: the dotted capital I keeps its dot. -/
def lowerChars (c : Char) : List Char :=
  if c.toNat = 0x130 then ['i', Char.ofNat 0x307] else [simpleLower c]

/-- Whether the first character that is not looked past has a case. -/
def nextIsCased (cs : List Char) : Bool :=
  match cs.dropWhile isCaseIgnorable with
  | c :: _ => isCased c
  | [] => false

/-- The lower case of a text whose reversed beginning `before` has been converted: a capital
sigma after a cased character and before none is final. -/
def lowerAfter (before : List Char) : List Char → List Char
  | [] => []
  | c :: rest =>
    let lower :=
      if c.toNat = 0x3A3 then
        if nextIsCased before && !nextIsCased rest then [Char.ofNat 0x3C2] else [Char.ofNat 0x3C3]
      else lowerChars c
    lower ++ lowerAfter (c :: before) rest

/-- The text in upper case. -/
def upperText (s : String) : String := String.ofList (s.toList.flatMap upperChars)

/-- The text in lower case. -/
def lowerText (s : String) : String := String.ofList (lowerAfter [] s.toList)

/-- The characters that differ from `c` in case only, `c` among them. -/
def caseOrbit (c : Char) : List Char :=
  match caseOrbits.find? (·.contains c.toNat) with
  | some codes => codes.map Char.ofNat
  | none => [c, simpleUpper c, simpleLower c]

end PipeQuery
