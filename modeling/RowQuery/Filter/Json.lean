import RowQuery.Filter.Basic
import RowQuery.Value.Json

/-!
# Filters in JSON

A filter is written as an object of its field, the name of its operator and its operand.
-/

namespace RowQuery

namespace Operator

def toJson (op : Operator) : Json := .string op.name

def ofJson? (depth : Nat) (j : Json) : Option Operator := (Json.name? depth j).bind ofName?

end Operator

namespace Filter

def toJson (f : Filter) : Json :=
  .object [("field", .string f.field), ("operator", f.operator.toJson), ("value", f.value.toJson)]

/-- The filter that a document denotes, read within a depth. -/
def ofJson? (depth : Nat) (j : Json) : Option Filter := do
  match ← Json.fields? ["field", "operator", "value"] j with
  | [some field, some operator, some value] =>
    some ⟨← field.toString?, ← Operator.ofJson? (depth - 1) operator,
      ← Value.ofJson? (depth - 1) value⟩
  | _ => none

end Filter

end RowQuery
