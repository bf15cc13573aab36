import PipeQuery.Text.Case

/-!
# Sets of characters

The sets that patterns name: digits, word characters and white space, the classes
between `[:` and `:]`, and properties of the Unicode standard.  Every set comes
with the rule by which case is ignored: a set then takes in each character that
differs from a member in case only.
-/

namespace PipeQuery.Regex

/-- A set of characters. -/
abbrev CharSet := Char → Bool

namespace CharSet

/-- The characters from one to another. -/
def range (first last : Char) : CharSet := fun c => first ≤ c && c ≤ last

/-- The characters that are not in the set. -/
def complement (s : CharSet) : CharSet := fun c => !s c

/-- The characters of either set. -/
def union (s t : CharSet) : CharSet := fun c => s c || t c

/-- The characters below U+0080 that are in the set. -/
def ascii (s : CharSet) : CharSet := fun c => c.toNat < 0x80 && s c

/-- The set with all characters that differ from a member in case only. -/
def ignoringCase (s : CharSet) : CharSet := fun c => (caseOrbit c).any s

/-- The set with all letters from A to Z that differ from a member in case only. -/
def ignoringAsciiCase (s : CharSet) : CharSet := fun c => s c || s c.toUpper || s c.toLower

/-- The class with a name between `[:` and `:]`. -/
def ofClassName? : String → Option CharSet
  | "alnum" => some (ascii Char.isAlphanum)
  | "alpha" => some (ascii Char.isAlpha)
  | "ascii" => some (ascii fun _ => true)
  | "blank" => some fun c => c = ' ' || c = '\t'
  | "cntrl" => some (ascii isControl)
  | "digit" => some (range '0' '9')
  | "graph" => some (range '!' '~')
  | "lower" => some (range 'a' 'z')
  | "print" => some (range ' ' '~')
  | "punct" => some fun c => range '!' '~' c && !c.isAlphanum
  | "space" => some (ascii isBlank)
  | "upper" => some (range 'A' 'Z')
  | "word" => some (ascii isWordChar)
  | "xdigit" => some fun c => c.isDigit || range 'a' 'f' c || range 'A' 'F' c
  | _ => none

/-- The characters of a general category, or of all categories that begin with a letter. -/
def ofCategory? : List Char → Option CharSet
  | ['l', 'c'] => some fun c => match Category.of c with
    | .lu | .ll | .lt => true
    | _ => false
  | [major] =>
    let group := Category.all.filterMap fun (m, _, category) =>
      if m.toLower = major then some category else none
    if group.isEmpty then none else some fun c => group.contains (.of c)
  | [major, minor] =>
    (Category.ofLetters? major.toUpper minor).map fun category c => Category.of c == category
  | _ => none

/-- The letters that stand for a category in full. -/
def categoryLetters : String → Option String
  | "casedletter" => some "lc"
  | "letter" => some "l"
  | "uppercaseletter" => some "lu"
  | "lowercaseletter" => some "ll"
  | "titlecaseletter" => some "lt"
  | "modifierletter" => some "lm"
  | "otherletter" => some "lo"
  | "mark" | "combiningmark" => some "m"
  | "nonspacingmark" => some "mn"
  | "spacingmark" => some "mc"
  | "enclosingmark" => some "me"
  | "number" => some "n"
  | "decimalnumber" | "digit" => some "nd"
  | "letternumber" => some "nl"
  | "othernumber" => some "no"
  | "punctuation" | "punct" => some "p"
  | "connectorpunctuation" => some "pc"
  | "dashpunctuation" => some "pd"
  | "openpunctuation" => some "ps"
  | "closepunctuation" => some "pe"
  | "initialpunctuation" => some "pi"
  | "finalpunctuation" => some "pf"
  | "otherpunctuation" => some "po"
  | "symbol" => some "s"
  | "mathsymbol" => some "sm"
  | "currencysymbol" => some "sc"
  | "modifiersymbol" => some "sk"
  | "othersymbol" => some "so"
  | "separator" => some "z"
  | "spaceseparator" => some "zs"
  | "lineseparator" => some "zl"
  | "paragraphseparator" => some "zp"
  | "other" => some "c"
  | "control" | "cntrl" => some "cc"
  | "format" => some "cf"
  | "surrogate" => some "cs"
  | "privateuse" => some "co"
  | "unassigned" => some "cn"
  | _ => none

/-- The name of a property without what does not count in it: case, spaces, underscores, dashes
and a leading `is`. -/
def plainName (name : List Char) : List Char :=
  let letters := (name.filter fun c => !(c = ' ' || c = '_' || c = '-')).map Char.toLower
  match letters with
  | ['i', 's', 'c'] => letters
  | 'i' :: 's' :: rest => rest
  | _ => letters

/-- The characters with a property. -/
def ofProperty? (name : List Char) : Option CharSet :=
  let plain := plainName name
  match String.ofList plain with
  | "any" => some fun _ => true
  | "ascii" => some (ascii fun _ => true)
  | "assigned" => some fun c => Category.of c != .cn
  | "alphabetic" | "alpha" => some isAlphabetic
  | "whitespace" | "wspace" | "space" => some isBlank
  | "uppercase" | "upper" =>
    some fun c => Category.of c == .lu || inRanges otherUppercase c.toNat
  | "lowercase" | "lower" =>
    some fun c => Category.of c == .ll || inRanges otherLowercase c.toNat
  | word => ofCategory? (((categoryLetters word).map String.toList).getD plain)

end CharSet

end PipeQuery.Regex
