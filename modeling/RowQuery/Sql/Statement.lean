import RowQuery.Query.Step
import RowQuery.Sql.Keyset
import RowQuery.Sql.Predicate

/-!
# Statements of SQL

A query becomes a `SELECT` that fetches its rows from a table. A count from the end of the window
cannot be said in the statement. If it is the only count, the ordering is reversed and the count
becomes the limit; otherwise the last rows are kept after fetching. `arrange` puts fetched rows into
the order of the query.
-/

namespace RowQuery.Sql

/-- The parts of a `SELECT`. -/
structure Select where
  table : String
  filters : List Predicate
  bounds : List Keyset
  order : List OrderKey
  limit : Option Nat
  offset : Option Nat
deriving DecidableEq

namespace Select

/-- The text of a key of the ordering. -/
def keyChars (r : Renderer) (k : OrderKey) : List Char :=
  r.identifier k.field ++ (if k.descending then " DESC" else " ASC").toList

/-- The clause of an ordering; without keys there is none. -/
def orderChars (r : Renderer) : List OrderKey → List Char
  | [] => []
  | order => "ORDER BY ".toList ++ List.intercalate ", ".toList (order.map (keyChars r))

/-- The conditions of the statement: one for each filter and one for each cursor. -/
def conditions (r : Renderer) (s : Select) : List (List Char) :=
  s.filters.map (Predicate.chars r) ++ s.bounds.map fun k => '(' :: k.chars r ++ [')']

/-- A clause with a blank in front, or nothing. -/
def spaced (clause : List Char) : List Char := if clause.isEmpty then [] else ' ' :: clause

/-- The clause of the conditions; without conditions there is none. -/
def whereChars : List (List Char) → List Char
  | [] => []
  | conditions => "WHERE ".toList ++ List.intercalate " AND ".toList conditions

def countChars (keyword : String) : Option Nat → List Char
  | none => []
  | some n => keyword.toList ++ ' ' :: Text.digits n

def chars (r : Renderer) (s : Select) : List Char :=
  "SELECT * FROM ".toList ++ r.identifier s.table ++ spaced (whereChars (s.conditions r))
    ++ spaced (orderChars r s.order) ++ spaced (countChars "LIMIT" s.limit)
    ++ spaced (countChars "OFFSET" s.offset)

end Select

/-- A statement, and how the rows it fetches become a page. -/
structure Statement where
  select : Select
  /-- Whether the ordering is reversed, so that fetched rows have to be reversed as well. -/
  reversed : Bool
  /-- How many of the last rows belong to the page; without a count all do. -/
  keepLast : Option Nat
deriving DecidableEq

/-- The last elements of a list, or all of them without a count. -/
def keepLast {α : Type} (n : Option Nat) (rows : List α) : List α :=
  match n with
  | some n => rows.drop (rows.length - n)
  | none => rows

/-- Fetched rows in the order of a page. -/
def arrangeRows {α : Type} (reversed : Bool) (last : Option Nat) (rows : List α) : List α :=
  keepLast last (if reversed then rows.reverse else rows)

namespace Statement

/-- Fetched rows in the order of the query. -/
def arrange {α : Type} (s : Statement) (rows : List α) : List α :=
  arrangeRows s.reversed s.keepLast rows

/-- The bound that a cursor sets, if there is a cursor. -/
def bound (order : List OrderKey) (side : Side) : Option Cursor → Except QueryError (List Keyset)
  | none => .ok []
  | some c =>
    match Keyset.ofCursor? order c side with
    | some k => .ok [k]
    | none => .error (.cursor .missingLeadingKey)

/-- The smaller of two counts, either of which may be absent. -/
def smaller : Option Nat → Option Nat → Option Nat
  | some m, some n => some (min m n)
  | some m, none => some m
  | none, n => n

/-- Whether the count from the end is the only count. -/
def countsFromEnd (q : Query) : Bool :=
  q.last.isSome && q.first.isNone && q.limit.isNone && q.offset.isNone

/-- The statement that fetches the rows of a query from a table. -/
def ofQuery (table : String) (q : Query) : Except QueryError Statement := do
  let after ← bound q.order .after q.after
  let before ← bound q.order .before q.before
  let reversed := countsFromEnd q
  .ok
    { select :=
        { table := table
          filters := q.filters.map Predicate.ofFilter
          bounds := after ++ before
          order := if reversed then q.order.map OrderKey.reversed else q.order
          limit := if reversed then q.last else smaller q.limit q.first
          offset := q.offset }
      reversed := reversed
      keepLast := if reversed then none else q.last }

def text (r : Renderer) (s : Statement) : String := String.ofList (s.select.chars r)

end Statement

end RowQuery.Sql
