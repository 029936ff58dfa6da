import RowQuery.Sql.Quoted
import RowQuery.Value.Text

/-!
# Literals of SQL

A value is written as a literal: booleans as `1` and `0`, numbers as their plain text, strings and
timestamps in single quotes, and lists in parentheses. A number that is not finite has no literal and
is written as `NULL`.
-/

namespace RowQuery.Sql

mutual

/-- The literal of a value; `escape` writes the inside of a string. -/
def literalChars (escape : List Char → List Char) : Value → List Char
  | .null => "NULL".toList
  | .bool b => if b then ['1'] else ['0']
  | .int i => Text.intDigits i.toInt
  | .float x => if x.isFinite then x.plainChars else "NULL".toList
  | .string s => Quoted.enclose '\'' (escape s.toList)
  | .dateTime t => Quoted.enclose '\'' (t.chars .millis)
  | .list items => '(' :: literalItems escape items ++ [')']

/-- The literals of the elements of a list, separated by commas. -/
def literalItems (escape : List Char → List Char) : List Value → List Char
  | [] => []
  | [v] => literalChars escape v
  | v :: w :: rest => literalChars escape v ++ ',' :: ' ' :: literalItems escape (w :: rest)

end

end RowQuery.Sql
