import RowQuery.Cursor.Basic
import RowQuery.Filter.Basic
import RowQuery.NameSet
import RowQuery.OrderKey

/-!
# Queries

A `Query` describes which rows are wanted and in which order: a conjunction of filters, an ordering,
counts, and cursors that bound the window of rows. Names of related rows to load along are kept for
whoever runs the query.
-/

namespace RowQuery

/-- A description of the rows wanted. -/
structure Query where
  filters : List Filter
  order : List OrderKey
  limit : Option Nat
  offset : Option Nat
  after : Option Cursor
  before : Option Cursor
  first : Option Nat
  last : Option Nat
  preload : NameSet
deriving DecidableEq

namespace Query

def all : Query := ⟨[], [], none, none, none, none, none, none, .empty⟩

instance : Inhabited Query := ⟨all⟩

/-- Whether nothing is asked for beyond all rows. -/
def isEmpty (q : Query) : Bool :=
  q.filters.isEmpty && q.order.isEmpty && q.limit.isNone && q.offset.isNone && q.after.isNone
    && q.before.isNone && q.first.isNone && q.last.isNone && q.preload.isEmpty

/-- Whether the query pages with cursors or with counts from either end. -/
def isCursorPaged (q : Query) : Bool :=
  q.after.isSome || q.before.isSome || q.first.isSome || q.last.isSome

theorem isEmpty_iff {q : Query} : q.isEmpty = true ↔ q = all := by
  obtain ⟨filters, order, limit, offset, after, before, first, last, names, sorted⟩ := q
  simp only [isEmpty, all, NameSet.isEmpty, NameSet.empty, Bool.and_eq_true, List.isEmpty_iff,
    Option.isNone_iff_eq_none, mk.injEq, NameSet.mk.injEq]
  grind

end Query

end RowQuery
