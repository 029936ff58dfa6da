import RowQuery.Filter.Operator
import RowQuery.Sql.Literal

/-!
# Dialects of SQL

A dialect decides how operators are spelled, how a quotation mark is written inside a string, and how
values are written. Besides the standard dialect there is one that escapes quotation marks with a
backslash, and one that has truth values and compares texts without regard to case.
-/

namespace RowQuery.Sql

/-- The spellings of a dialect. -/
structure Dialect where
  /-- The text of an operator. -/
  operatorText : Operator → String
  /-- The inside of a string between quotation marks. -/
  escape : List Char → List Char
  /-- The literal of a value. -/
  literal : Value → List Char

namespace Dialect

/-- The text of an operator in the standard dialect. -/
def standardOperatorText : Operator → String
  | .equals => "="
  | .notEquals => "!="
  | .lessThan => "<"
  | .lessThanOrEquals => "<="
  | .greaterThan => ">"
  | .greaterThanOrEquals => ">="
  | .isNull => "IS NULL"
  | .isNotNull => "IS NOT NULL"
  | .whereIn => "IN"
  | .whereNotIn => "NOT IN"
  | .contains | .startsWith | .endsWith | .arrayContains | .arrayContainsAny => "LIKE"

/-- The dialect with the standard operators and a way to write the inside of strings. -/
def withEscape (escape : List Char → List Char) : Dialect :=
  ⟨standardOperatorText, escape, literalChars escape⟩

/-- The standard dialect doubles quotation marks. -/
def standard : Dialect := withEscape (Quoted.encode '\'')

/-- The dialect that escapes quotation marks with a backslash. -/
def backslash : Dialect :=
  withEscape fun cs => cs.flatMap fun c => if c = '\'' then ['\\', '\''] else [c]

/-- The dialect that has truth values, outside lists, and compares texts without regard to case. -/
def caseless : Dialect where
  operatorText
    | .notEquals => "<>"
    | .contains => "ILIKE"
    | .isNull => "IS MISSING"
    | op => standardOperatorText op
  escape := standard.escape
  literal
    | .bool true => "TRUE".toList
    | .bool false => "FALSE".toList
    | v => standard.literal v

end Dialect

/-- A dialect, and whether names are quoted. -/
structure Renderer where
  dialect : Dialect
  quoteIdentifiers : Bool

namespace Renderer

/-- The name of a column or table. -/
def identifier (r : Renderer) (name : String) : List Char :=
  if r.quoteIdentifiers then Quoted.enclose '"' (Quoted.encode '"' name.toList) else name.toList

end Renderer

end RowQuery.Sql
