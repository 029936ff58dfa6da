import RowQuery.Query.Step
import RowQuery.Value.Text

/-!
# Diagnostic texts

A diagnostic text shows all parts of a query, an expression, a field or a value with their names. Names
and texts stand in quotation marks with control characters escaped, and numbers can be told from
integers by their point or exponent.
-/

namespace RowQuery

namespace Diagnostic

/-- The lower-case hexadecimal digits of a number. -/
def hexDigits (n : Nat) : List Char := Nat.toDigits 16 n

def escape (c : Char) : List Char :=
  if c = '"' ∨ c = '\\' then ['\\', c]
  else if c = '\n' then ['\\', 'n']
  else if c = '\r' then ['\\', 'r']
  else if c = '\t' then ['\\', 't']
  else if c.toNat = 0 then ['\\', '0']
  else if c.toNat < 32 ∨ c.toNat = 127 then
    ['\\', 'u', '\x7b'] ++ hexDigits c.toNat ++ ['\x7d']
  else [c]

def quoted (s : String) : List Char := '"' :: s.toList.flatMap escape ++ ['"']

def commas (parts : List (List Char)) : List Char := List.intercalate [',', ' '] parts

def applied (name : String) (parts : List (List Char)) : List Char :=
  name.toList ++ '(' :: commas parts ++ [')']

/-- A name and the named parts of what it holds. -/
def record (name : String) (parts : List (String × List Char)) : List Char :=
  name.toList ++ [' ', '\x7b', ' ']
    ++ commas (parts.map fun p => p.1.toList ++ ':' :: ' ' :: p.2) ++ [' ', '\x7d']

def bracketed (parts : List (List Char)) : List Char := '[' :: commas parts ++ [']']

def braced (parts : List (List Char)) : List Char := '\x7b' :: commas parts ++ ['\x7d']

def optional {α : Type} (write : α → List Char) : Option α → List Char
  | none => "None".toList
  | some a => applied "Some" [write a]

def truth (b : Bool) : List Char := (if b then "true" else "false").toList

/-- Numbers from `1e-4` to `1e16` are written without an exponent, and whole numbers end in `.0`. -/
def numberLayout : Double.Layout := ⟨.up, some (-3, 16), true, false⟩

end Diagnostic

open Diagnostic

/-- The diagnostic text of an operator is its name with a capital. -/
def Operator.diagnostic (op : Operator) : List Char :=
  match op.name.toList with
  | [] => []
  | c :: cs => c.toUpper :: cs

namespace Value

mutual

def diagnostic : Value → List Char
  | .null => "Null".toList
  | .bool b => applied "Bool" [truth b]
  | .int i => applied "Int" [Text.intDigits i.toInt]
  | .float x => applied "Float" [numberLayout.chars x]
  | .string s => applied "String" [quoted s]
  | .dateTime t => applied "DateTime" [t.chars .exact]
  | .list items => applied "List" [bracketed (diagnosticItems items)]

def diagnosticItems : List Value → List (List Char)
  | [] => []
  | v :: rest => diagnostic v :: diagnosticItems rest

end

end Value

def Cursor.diagnostic (c : Cursor) : List Char :=
  let pair (p : String × Value) : List Char := '(' :: commas [quoted p.1, p.2.diagnostic] ++ [')']
  record "Cursor" [("values", bracketed (c.pairs.map pair))]

def Filter.diagnostic (f : Filter) : List Char :=
  record "QueryFilter"
    [("field", quoted f.field), ("operator", f.operator.diagnostic), ("value", f.value.diagnostic)]

/-- The diagnostic text of a key of an ordering. -/
def OrderKey.diagnostic (k : OrderKey) : List Char :=
  record "QueryOrderBy" [("field", quoted k.field), ("descending", truth k.descending)]

def Query.diagnostic (q : Query) : String :=
  String.ofList
    (record "Query"
      [("filters", bracketed (q.filters.map Filter.diagnostic)),
        ("order_by", bracketed (q.order.map OrderKey.diagnostic)),
        ("limit", optional Text.digits q.limit),
        ("offset", optional Text.digits q.offset),
        ("after_cursor", optional Cursor.diagnostic q.after),
        ("before_cursor", optional Cursor.diagnostic q.before),
        ("first_count", optional Text.digits q.first),
        ("last_count", optional Text.digits q.last),
        ("preload_fields", braced (q.preload.names.map quoted))])

namespace Expr

/-- The diagnostic text of a node of an expression. -/
def nodeDiagnostic : Expr → List Char
  | .comparison field operator value =>
    record "Comparison"
      [("field_name", quoted field), ("operator", operator.diagnostic), ("value", value.diagnostic)]
  | .and left right => applied "And" [left.nodeDiagnostic, right.nodeDiagnostic]
  | .or left right => applied "Or" [left.nodeDiagnostic, right.nodeDiagnostic]
  | .not inner => applied "Not" [inner.nodeDiagnostic]

def diagnostic (e : Expr) : String := String.ofList (applied "Expression" [e.nodeDiagnostic])

end Expr

/-- The diagnostic text of a declared field. -/
def Field.diagnostic (f : Field) : String := String.ofList (applied f.kind.name [quoted f.name])

end RowQuery
