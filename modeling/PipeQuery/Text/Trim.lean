import PipeQuery.Text.Property

/-!
# Trimming

White space at the ends of a text, and a text cut into words at white space.
-/

namespace PipeQuery

/-- The characters without white space at the front. -/
def trimStartChars (cs : List Char) : List Char := cs.dropWhile isBlank

/-- The characters without white space at the end. -/
def trimEndChars (cs : List Char) : List Char := (cs.reverse.dropWhile isBlank).reverse

/-- The characters without white space at either end. -/
def trimChars (cs : List Char) : List Char := trimEndChars (trimStartChars cs)

/-- The runs of characters that are not white space, `word` being the reversed beginning of
the first. -/
def wordsAfter (word : List Char) : List Char → List (List Char)
  | [] => if word.isEmpty then [] else [word.reverse]
  | c :: rest =>
    if isBlank c then
      if word.isEmpty then wordsAfter [] rest else word.reverse :: wordsAfter [] rest
    else wordsAfter (c :: word) rest

/-- The runs of characters that are not white space. -/
def words (cs : List Char) : List (List Char) := wordsAfter [] cs

/-- Whether a text is white space only. -/
def isBlankText (cs : List Char) : Bool := cs.all isBlank

end PipeQuery
