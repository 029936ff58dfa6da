import RowQuery.Base64
import RowQuery.Bisection
import RowQuery.Condition
import RowQuery.Cursor.Basic
import RowQuery.Cursor.Keys
import RowQuery.Cursor.Token
import RowQuery.Diagnostic
import RowQuery.Double.Basic
import RowQuery.Double.Reading
import RowQuery.Double.Rounding
import RowQuery.Double.Shortest
import RowQuery.Double.Text
import RowQuery.Expr.Basic
import RowQuery.Expr.Lowering
import RowQuery.Field
import RowQuery.Filter.Basic
import RowQuery.Filter.Json
import RowQuery.Filter.Operator
import RowQuery.Json.Basic
import RowQuery.Json.Number
import RowQuery.Json.Reader
import RowQuery.Json.Shape
import RowQuery.Json.Writer
import RowQuery.NameSet
import RowQuery.OrderKey
import RowQuery.Page.Basic
import RowQuery.Page.Json
import RowQuery.Page.Key
import RowQuery.Page.Options
import RowQuery.Page.Paginate
import RowQuery.Page.Window
import RowQuery.Proofs.Base64
import RowQuery.Proofs.Comparison
import RowQuery.Proofs.Json.Documents
import RowQuery.Proofs.Json.Tokens
import RowQuery.Proofs.Outcome
import RowQuery.Proofs.Page.Candidates
import RowQuery.Proofs.Page.KeyOrder
import RowQuery.Proofs.Page.Parts
import RowQuery.Proofs.Page.Window
import RowQuery.Proofs.StableSort
import RowQuery.Proofs.Timestamp.Calendar
import RowQuery.Proofs.Timestamp.Reading
import RowQuery.Proofs.Timestamp.Settled
import RowQuery.Proofs.Value.Json
import RowQuery.Proofs.Value.SortOrder
import RowQuery.Proofs.Value.Plain
import RowQuery.Query.Basic
import RowQuery.Query.Step
import RowQuery.QueryError
import RowQuery.Record
import RowQuery.Settings.Basic
import RowQuery.Settings.Environment
import RowQuery.Settings.Json
import RowQuery.Settings.Path
import RowQuery.Settings.Reading
import RowQuery.Settings.Tree
import RowQuery.Sql.Dialect
import RowQuery.Sql.Keyset
import RowQuery.Sql.Like
import RowQuery.Sql.Literal
import RowQuery.Sql.Predicate
import RowQuery.Sql.Quoted
import RowQuery.Sql.Statement
import RowQuery.StableSort
import RowQuery.Text.Blank
import RowQuery.Text.Digits
import RowQuery.Text.LowerCase
import RowQuery.Text.Numeral
import RowQuery.Text.Search
import RowQuery.Timestamp.Basic
import RowQuery.Timestamp.Calendar
import RowQuery.Timestamp.Reading
import RowQuery.Timestamp.Text
import RowQuery.Utf8
import RowQuery.Value.Basic
import RowQuery.Value.Json
import RowQuery.Value.Order
import RowQuery.Value.Text
import RowQuery.Word
import RowQuery.Proofs.Cursor.Recorded
import RowQuery.Proofs.Page.OwnCursor
import RowQuery.Proofs.Page.Split
import RowQuery.Proofs.Page.Selection
import RowQuery.Proofs.Walk.Basic
import RowQuery.Proofs.Walk.FixedRows
import RowQuery.Proofs.Walk.ChangingRows
import RowQuery.Proofs.Expr.Meaning
import RowQuery.Proofs.Sql.Slicing
import RowQuery.Proofs.Text.Blank
import RowQuery.Proofs.Text.Digits
import RowQuery.Proofs.Sql.Lexer
import RowQuery.Proofs.Sql.KeysetText
import RowQuery.Proofs.Sql.KeysetWindow
import RowQuery.Proofs.Cursor.Token
import RowQuery.Proofs.Double.Rounding
import RowQuery.Proofs.Value.TotalOrder
import RowQuery.Proofs.Sql.LikeMatching
import RowQuery.Proofs.Sql.Writing
import RowQuery.Proofs.Sql.Nesting
import RowQuery.Proofs.Sql.Structure
import RowQuery.Proofs.Sql.ConditionText
import RowQuery.Proofs.Sql.Filtering
import RowQuery.Proofs.Page.StorageOrder
import RowQuery.Proofs.Page.Mirror
import RowQuery.Proofs.Page.Strategies
import RowQuery.Proofs.Page.Tokens
import RowQuery.Proofs.Json.Records
import RowQuery.Proofs.Sql.NullOperands
import RowQuery.Proofs.Sql.OrderClause
import RowQuery.Proofs.Sql.Clauses
import RowQuery.Proofs.Sql.FilterTokens
import RowQuery.Proofs.Sql.Anchors
import RowQuery.Proofs.Expr.Conjunctive
import RowQuery.Proofs.Page.AddedFilters
import RowQuery.Proofs.Walk.Return
import RowQuery.Proofs.Page.WordIndices
import RowQuery.Proofs.Value.Agreement
import RowQuery.Proofs.Cursor.Rejection
import RowQuery.Proofs.Query.Steps
import RowQuery.Proofs.Sql.LiteralReading
import RowQuery.Proofs.Filter.Membership
import RowQuery.Proofs.Query.TypedFields
import RowQuery.Proofs.Page.Lexicographic
import RowQuery.Proofs.Settings.Override
import RowQuery.Proofs.Cursor.FirstInsertion
import RowQuery.Proofs.Value.Unsigned
import RowQuery.Proofs.Value.Settled
