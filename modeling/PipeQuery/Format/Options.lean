/-!
# Options of the format readers

How delimited text and markup are read, with what holds when a query says
nothing.
-/

namespace PipeQuery

/-- How delimited text is read. -/
structure CsvOptions where
  /-- What stands between fields. -/
  delimiter : Char := ','
  /-- Whether the first record names the fields. -/
  columns : Bool := false
  /-- What begins a line that is no record. -/
  comment : Option Char := none
  /-- Whether records with empty fields only are left out. -/
  skipEmptyLines : Bool := false
  /-- Whether records may have different numbers of fields. -/
  relaxColumnCount : Bool := false
deriving DecidableEq

/-- How markup is read. -/
structure XmlOptions where
  /-- Whether attributes are kept. -/
  attributes : Bool := false
  /-- What is put before the names of attributes. -/
  attributePrefix : String := "@_"
  /-- The key of an element's text beside attributes or children. -/
  textNodeName : String := "#text"
  /-- Whether texts that spell numbers and booleans become such. -/
  parseValues : Bool := true
deriving DecidableEq

end PipeQuery
