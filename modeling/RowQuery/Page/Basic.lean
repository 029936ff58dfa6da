import RowQuery.Cursor.Basic

/-!
# Pages

A page holds some of the rows that a query asks for, and the data needed to move on from it: whether
rows stand before and after it, cursors of its first and last row, and the number of all rows.
-/

namespace RowQuery

/-- Where a page stands among all rows. -/
structure PageInfo where
  hasNext : Bool
  hasPrevious : Bool
  startCursor : Option Cursor
  endCursor : Option Cursor
  totalCount : Option Nat
deriving DecidableEq

/-- The data of a page without rows or neighbours. -/
def PageInfo.empty : PageInfo := ⟨false, false, none, none, none⟩

/-- Some rows and where they stand. -/
structure Page (α : Type) where
  items : List α
  info : PageInfo
deriving DecidableEq

namespace Page

variable {α β : Type}

def empty : Page α := ⟨[], .empty⟩

/-- The number of rows of a page. -/
def size (p : Page α) : Nat := p.items.length

def isEmpty (p : Page α) : Bool := p.items.isEmpty

def map (f : α → β) (p : Page α) : Page β := ⟨p.items.map f, p.info⟩

end Page

end RowQuery
