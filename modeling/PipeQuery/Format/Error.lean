import PipeQuery.Expr.Error
import PipeQuery.Format.Csv
import PipeQuery.Format.Json.Error
import PipeQuery.Format.Xml.Error
import PipeQuery.Text.Untold

/-!
# Why a text inside a value gives no value
-/

namespace PipeQuery

/-- Why a text inside a value, or an expression, gives no value. -/
inductive ContentError where
  /-- The text is no JSON. -/
  | json (error : Json.Error)
  /-- The text is no delimited text. -/
  | csv (error : Csv.Error)
  /-- The text is no markup. -/
  | xml (error : Xml.Error)
  /-- The text is no YAML. -/
  | yaml
  /-- The expression has no value. -/
  | expression (error : Expr.Error)
deriving DecidableEq

/-- The error in words. -/
def ContentError.message : ContentError → String
  | .json e => "invalid JSON: " ++ e.message
  | .csv e => "invalid CSV: " ++ e.message
  | .xml e => "invalid XML: " ++ e.message
  | .yaml => "invalid YAML: " ++ untoldFault
  | .expression e => e.message

end PipeQuery
