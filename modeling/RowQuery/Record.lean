import RowQuery.Value.Basic

/-!
# Records

Filters and pages work on any rows whose fields can be read by name. A `Row` is the plain case: a list
of fields with their values.
-/

namespace RowQuery

/-- Rows whose fields can be read by name. -/
class Record (ρ : Type) where
  /-- The value of a field, if the row has it. -/
  field? : ρ → String → Option Value

/-- The value of a field of a row; a field that the row lacks reads as null. -/
def Record.value {ρ : Type} [Record ρ] (row : ρ) (field : String) : Value :=
  (Record.field? row field).getD .null

/-- A row as a list of fields and values. -/
structure Row where
  fields : List (String × Value)
deriving DecidableEq

/-- The value of a field of a row. -/
def Row.field? (row : Row) (field : String) : Option Value :=
  (row.fields.find? fun p => p.1 == field).map Prod.snd

instance : Record Row := ⟨Row.field?⟩

end RowQuery
