import PipeQuery.Number.Text

/-!
# Why a text is no markup

Places are counted in bytes: those of attributes from the beginning of the tag,
those of references from the beginning of the text or value they stand in.
-/

namespace PipeQuery.Xml

/-- Markup that needs an end. -/
inductive Unclosed where
  | tag
  | comment
  | cdata
  | doctype
  | instruction
deriving DecidableEq

/-- What is not closed, in words. -/
def Unclosed.describe : Unclosed → String
  | .tag => "tag not closed: \x60>\x60 not found before end of input"
  | .comment => "comment not closed: \x60-->\x60 not found before end of input"
  | .cdata => "CDATA not closed: \x60]]>\x60 not found before end of input"
  | .doctype => "DOCTYPE not closed: \x60>\x60 not found before end of input"
  | .instruction =>
    "processing instruction or xml declaration not closed: \x60?>\x60 not found before end of input"

/-- Why digits are no character. -/
inductive ReferenceFault where
  /-- A sign stands before the digits. -/
  | sign
  /-- There are no digits. -/
  | noDigits
  /-- Something is no digit. -/
  | invalidDigit
  /-- The number has more than 32 bits. -/
  | tooLarge
  /-- No character has this number. -/
  | noCharacter (n : Nat)
  /-- The character with the number zero. -/
  | zero
deriving DecidableEq

/-- The fault in words. -/
def ReferenceFault.describe : ReferenceFault → String
  | .sign => "unexpected number sign"
  | .noDigits => "cannot parse integer from empty string"
  | .invalidDigit => "invalid digit found in string"
  | .tooLarge => "number too large to fit in target type"
  | .noCharacter n => "\x60" ++ toString n ++ "\x60 is not a valid codepoint"
  | .zero => "0x0 character is not permitted in XML"

/-- Why attributes cannot be read. -/
inductive AttributeFault where
  /-- There is no equals sign behind a name. -/
  | expectedEquals (position : Nat)
  /-- There is nothing behind the equals sign. -/
  | expectedValue (position : Nat)
  /-- A value without quotes. -/
  | unquoted (position : Nat)
  /-- A value whose quote is not closed. -/
  | expectedQuote (position : Nat) (quote : Char)
  /-- A name that has come before. -/
  | duplicated (position earlier : Nat)
deriving DecidableEq

/-- The fault in words. -/
def AttributeFault.describe : AttributeFault → String
  | .expectedEquals p =>
    "position " ++ toString p ++ ": attribute key must be directly followed by \x60=\x60 or space"
  | .expectedValue p =>
    "position " ++ toString p ++ ": \x60=\x60 must be followed by an attribute value"
  | .unquoted p =>
    "position " ++ toString p ++ ": attribute value must be enclosed in \x60\"\x60 or \x60'\x60"
  | .expectedQuote p quote =>
    "position " ++ toString p ++ ": missing closing quote \x60" ++ quote.toString
      ++ "\x60 in attribute value"
  | .duplicated p earlier =>
    "position " ++ toString p ++ ": duplicated attribute, previous declaration at position "
      ++ toString earlier

/-- Why a text is no markup. -/
inductive Error where
  /-- Something is not closed. -/
  | unclosed (what : Unclosed)
  /-- An exclamation mark that begins nothing known. -/
  | unknownDeclaration
  /-- A document type without a name. -/
  | missingDoctypeName
  /-- An end that matches no beginning. -/
  | unmatchedEnd (name : String)
  /-- An end with another name than the beginning. -/
  | mismatchedEnd (expected found : String)
  /-- A reference without a semicolon. -/
  | unterminatedReference (start stop : Nat)
  /-- A reference to an unknown name. -/
  | unknownEntity (start stop : Nat) (name : String)
  /-- A reference to no character. -/
  | characterReference (fault : ReferenceFault)
  /-- The attributes of a tag cannot be read. -/
  | attribute (fault : AttributeFault)
  /-- An element ends that did not begin. -/
  | unexpectedEnd
  /-- An element does not end. -/
  | unclosedElement (name : String)
deriving DecidableEq

/-- The error in words. -/
def Error.message : Error → String
  | .unclosed what => "syntax error: " ++ what.describe
  | .unknownDeclaration => "syntax error: unknown or missed symbol in markup"
  | .missingDoctypeName =>
    "ill-formed document: \x60<!DOCTYPE>\x60 declaration does not contain a name of a document type"
  | .unmatchedEnd name =>
    "ill-formed document: close tag \x60</" ++ name ++ ">\x60 does not match any open tag"
  | .mismatchedEnd expected found =>
    "ill-formed document: expected \x60</" ++ expected ++ ">\x60, but \x60</" ++ found
      ++ ">\x60 was found"
  | .unterminatedReference start stop =>
    "Error while escaping character at range " ++ toString start ++ ".." ++ toString stop
      ++ ": Cannot find ';' after '&'"
  | .unknownEntity start stop name =>
    "at " ++ toString start ++ ".." ++ toString stop ++ ": unrecognized entity \x60" ++ name
      ++ "\x60"
  | .characterReference fault => "invalid character reference: " ++ fault.describe
  | .attribute fault => fault.describe
  | .unexpectedEnd => "unexpected closing tag"
  | .unclosedElement name => "unclosed element <" ++ name ++ ">"

end PipeQuery.Xml
