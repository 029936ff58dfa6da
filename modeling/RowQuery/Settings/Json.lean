import RowQuery.Json.Shape
import RowQuery.Settings.Basic

/-!
# Settings in JSON

Settings are written as nested objects. In a document that is read, every part may be left out, and a
part that is left out has its standard value.
-/

namespace RowQuery

namespace CursorStrategy

def toJson (s : CursorStrategy) : Json := .string s.name

def ofJson? (depth : Nat) (j : Json) : Option CursorStrategy := (Json.name? depth j).bind ofName?

end CursorStrategy

namespace PageOptions

def fieldNames : List String := ["tiebreaker_field", "cursor_strategy", "include_total_count"]

/-- The options of paging as a document. -/
def toJson (o : PageOptions) : Json :=
  .object
    [("tiebreaker_field", .string o.tiebreaker), ("cursor_strategy", o.strategy.toJson),
      ("include_total_count", .bool o.countTotal)]

/-- The options of paging that a document denotes, read within a depth. -/
def ofJson? (depth : Nat) (j : Json) : Option PageOptions := do
  match ← Json.leadingFields? fieldNames j with
  | [tiebreaker, strategy, countTotal] =>
    some
      ⟨← Json.defaulted? standard.tiebreaker Json.toString? tiebreaker,
        ← Json.defaulted? standard.strategy (CursorStrategy.ofJson? (depth - 1)) strategy,
        ← Json.defaulted? standard.countTotal Json.toBool? countTotal⟩
  | _ => none

end PageOptions

namespace SqlOptions

def fieldNames : List String := ["quote_identifiers"]

/-- The options of SQL as a document. -/
def toJson (o : SqlOptions) : Json := .object [("quote_identifiers", .bool o.quoteIdentifiers)]

/-- The options of SQL that a document denotes. -/
def ofJson? (j : Json) : Option SqlOptions := do
  match ← Json.leadingFields? fieldNames j with
  | [quoteIdentifiers] =>
    some ⟨← Json.defaulted? standard.quoteIdentifiers Json.toBool? quoteIdentifiers⟩
  | _ => none

end SqlOptions

namespace Settings

def fieldNames : List String := ["pagination", "sql"]

def toJson (s : Settings) : Json :=
  .object [("pagination", s.pagination.toJson), ("sql", s.sql.toJson)]

/-- The settings that a document denotes, read within a depth. -/
def ofJson? (depth : Nat) (j : Json) : Option Settings := do
  match ← Json.leadingFields? fieldNames j with
  | [pagination, sql] =>
    some
      ⟨← Json.defaulted? standard.pagination (PageOptions.ofJson? (depth - 1)) pagination,
        ← Json.defaulted? standard.sql SqlOptions.ofJson? sql⟩
  | _ => none

end Settings

end RowQuery
