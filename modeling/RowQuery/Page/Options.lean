/-!
# Options of paging

What a page depends on besides its query: the field that breaks ties, how cursors mark a place, and
whether rows are counted.
-/

namespace RowQuery

/-- How a cursor marks the place of a row. -/
inductive CursorStrategy where
  /-- By the values of the fields that rows are ordered by. -/
  | keyset
  /-- By the place of the row in the order. -/
  | positional
deriving DecidableEq

namespace CursorStrategy

def name : CursorStrategy → String
  | .keyset => "keyset"
  | .positional => "positional"

def ofName? (name : String) : Option CursorStrategy :=
  [CursorStrategy.keyset, .positional].find? fun s => s.name == name

end CursorStrategy

/-- The options of paging. -/
structure PageOptions where
  /-- The field that breaks ties between rows that the ordering does not tell apart. -/
  tiebreaker : String
  strategy : CursorStrategy
  /-- Whether the number of all rows is reported. -/
  countTotal : Bool
deriving DecidableEq

/-- Ties are broken by the field `id`, cursors record values, and rows are counted. -/
def PageOptions.standard : PageOptions := ⟨"id", .keyset, true⟩

end RowQuery
