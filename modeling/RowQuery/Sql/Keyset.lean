import RowQuery.Cursor.Keys
import RowQuery.Sql.Dialect

/-!
# Keyset predicates of SQL

The rows on one side of a cursor are those that, for some key that the cursor records, equal it in all
earlier keys and lie beyond it in that one. Beyond is above it when the side is behind the cursor and
the key ascends, or the side is in front of it and the key descends.
-/

namespace RowQuery.Sql

/-- The rows behind a cursor, or those in front of it. -/
inductive Side where
  | after
  | before
deriving DecidableEq

/-- How a column compares with a recorded value. -/
inductive Relation where
  | eq
  | lt
  | gt
deriving DecidableEq

def Relation.symbol : Relation → Char
  | .eq => '='
  | .lt => '<'
  | .gt => '>'

/-- A column compared with a recorded value. -/
structure KeyTerm where
  column : String
  relation : Relation
  value : Value
deriving DecidableEq

/-- A disjunction of conjunctions of comparisons. -/
structure Keyset where
  branches : List (List KeyTerm)
deriving DecidableEq

namespace Keyset

def equal (p : OrderKey × Value) : KeyTerm := ⟨p.1.field, .eq, p.2⟩

/-- A key lies beyond its recorded value. -/
def beyond (side : Side) (p : OrderKey × Value) : KeyTerm :=
  ⟨p.1.field, if (side == .after) != p.1.descending then .gt else .lt, p.2⟩

/-- One branch for each key, behind the keys that are equal in all of them. -/
def branchesFrom (side : Side) (equals : List KeyTerm) :
    List (OrderKey × Value) → List (List KeyTerm)
  | [] => []
  | p :: rest =>
    (equals ++ [beyond side p]) :: branchesFrom side (equals ++ [equal p]) rest

/-- The predicate of the rows on one side of a cursor, if it records the first key. -/
def ofCursor? (order : List OrderKey) (c : Cursor) (side : Side) : Option Keyset :=
  match c.leading order with
  | [] => none
  | pairs => some ⟨branchesFrom side [] pairs⟩

def termChars (r : Renderer) (t : KeyTerm) : List Char :=
  r.identifier t.column ++ ' ' :: t.relation.symbol :: ' ' :: r.dialect.literal t.value

def branchChars (r : Renderer) (terms : List KeyTerm) : List Char :=
  '(' :: List.intercalate " AND ".toList (terms.map (termChars r)) ++ [')']

def chars (r : Renderer) (k : Keyset) : List Char :=
  List.intercalate " OR ".toList (k.branches.map (branchChars r))

end Keyset

end RowQuery.Sql
