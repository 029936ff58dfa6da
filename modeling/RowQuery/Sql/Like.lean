import RowQuery.Sql.Dialect

/-!
# Patterns of SQL

A test of a text becomes a pattern, in which `%` stands for any characters, `_` for any one, and a
backslash takes the meaning from the character behind it. Elements of lists are looked for in the text
of the list.
-/

namespace RowQuery.Sql.Like

/-- A text as a pattern that stands for it alone. -/
def escape (cs : List Char) : List Char :=
  cs.flatMap fun c => if c = '\\' ∨ c = '%' ∨ c = '_' then ['\\', c] else [c]

/-- The pattern of a test of a text, if the operator is such a test. -/
def pattern? (op : Operator) (text : List Char) : Option (List Char) :=
  match op with
  | .contains | .arrayContains | .arrayContainsAny => some ('%' :: escape text ++ ['%'])
  | .startsWith => some (escape text ++ ['%'])
  | .endsWith => some ('%' :: escape text)
  | _ => none

/-- The pattern of a test as a quoted string; an operand that is no text is looked for by its text. -/
def literal? (r : Renderer) (op : Operator) (operand : Value) : Option (List Char) :=
  (pattern? op operand.display).map fun p => Quoted.enclose '\'' (r.dialect.escape p)

end RowQuery.Sql.Like
