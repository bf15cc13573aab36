import PipeQuery.Main
import PipeQuery.Pipeline.Journal
import PipeQuery.Value.Interchange
import PipeQuery.Proofs.Number.Numeral
import PipeQuery.Proofs.Query.Grammar
import PipeQuery.Proofs.Query.Composition
import PipeQuery.Proofs.Query.Printing
import PipeQuery.Proofs.Expr.Lexemes
import PipeQuery.Proofs.Expr.Nodes
import PipeQuery.Proofs.Expr.RoundTrip
import PipeQuery.Proofs.Json.RoundTrip
import PipeQuery.Proofs.Pipeline.Ordering
import PipeQuery.Proofs.Pipeline.GroupByValue
import PipeQuery.Proofs.Pipeline.GroupByTexts
import PipeQuery.Proofs.Value.Removal
import PipeQuery.Proofs.Pipeline.Distinct
import PipeQuery.Proofs.Query.Spans
import PipeQuery.Proofs.Query.Quoting
import PipeQuery.Proofs.Query.WellFormed
import PipeQuery.Proofs.Xml.Children
import PipeQuery.Proofs.Xml.Building
import PipeQuery.Proofs.Pipeline.PassThrough
import PipeQuery.Proofs.Value.QuotedKey
import PipeQuery.Proofs.Query.Navigation
import PipeQuery.Proofs.Query.Nesting
import PipeQuery.Proofs.Pipeline.FieldByField
import PipeQuery.Proofs.Query.Functions
import PipeQuery.Proofs.Query.Engine
import PipeQuery.Proofs.Pipeline.Expanding
import PipeQuery.Proofs.Query.CommentLines
import PipeQuery.Proofs.Pipeline.Items
import PipeQuery.Proofs.Expr.Rootless
import PipeQuery.Proofs.Expr.Selectors
import PipeQuery.Proofs.Expr.Grouping
import PipeQuery.Proofs.Expr.BacktickNames
import PipeQuery.Proofs.Expr.PositionPredicates
import PipeQuery.Proofs.Csv.Rows
import PipeQuery.Proofs.Expr.Splitting
import PipeQuery.Proofs.Expr.Substrings
import PipeQuery.Proofs.Expr.OutOfRange
import PipeQuery.Proofs.Json.Layout
import PipeQuery.Proofs.Pipeline.Extremes
import PipeQuery.Proofs.Number.Exact
import PipeQuery.Proofs.Query.SyntaxCheck
import PipeQuery.Proofs.Value.Numbering
