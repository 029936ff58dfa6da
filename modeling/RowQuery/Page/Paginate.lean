import RowQuery.Bisection
import RowQuery.Cursor.Keys
import RowQuery.Page.Basic
import RowQuery.Page.Key
import RowQuery.Page.Options
import RowQuery.Page.Window
import RowQuery.Query.Step
import RowQuery.StableSort

/-!
# Paging through rows

A page is made from rows in memory: the rows that pass the filters are sorted by their keys, cursors
bound a window of them, and the counts of the query narrow it.

A cursor that records values bounds the window at the rows that it is compared with by the keys it
records, so one that records only the first key skips all rows that are tied with it. It has to record
that key. A cursor that records a position bounds the window at that place.
-/

namespace RowQuery

/-- A row with its key. -/
structure Entry (ρ : Type) where
  key : List Value
  row : ρ

namespace Page

variable {ρ : Type}

/-- The field in which a cursor records a position. -/
def positionField : String := "_index"

def entryOf [Record ρ] (keys : List OrderKey) (row : ρ) : Entry ρ :=
  ⟨OrderKey.rowKey keys row, row⟩

/-- Whether a row belongs strictly in front of another. -/
def precedes (keys : List OrderKey) (a b : Entry ρ) : Bool :=
  OrderKey.compareKeys keys a.key b.key == .lt

/-- The rows that pass the filters, in order. -/
def candidates [Record ρ] (keys : List OrderKey) (filters : List Filter) (rows : List ρ) :
    List (Entry ρ) :=
  StableSort.sort (precedes keys)
    ((rows.filter fun row => Filter.acceptsAll filters row).map (entryOf keys))

/-- The values of the leading keys that a cursor records; it has to record the first key. -/
def anchor (keys : List OrderKey) (c : Cursor) : Except CursorFault (List Value) :=
  match keys, c.leading keys with
  | k :: _, [] => .error (.missingKey k.field)
  | _, pairs => .ok (pairs.map Prod.snd)

def position (c : Cursor) : Except CursorFault Nat :=
  match c.get? positionField with
  | some (.int i) =>
    if 0 ≤ i.toInt then .ok i.toInt.toNat else .error (.missingPosition positionField)
  | _ => .error (.missingPosition positionField)

/-- The place at which a cursor bounds a window. Among keys it is the border of a test of how they compare
with the recorded values; a recorded place is moved on and kept among the candidates. -/
def placeBy (test : Ordering → Bool) (shift : Nat) (strategy : CursorStrategy) (keys : List OrderKey)
    (entries : List (Entry ρ)) (c : Cursor) : Except CursorFault Nat :=
  match strategy with
  | .keyset => do
    let values ← anchor keys c
    .ok (Bisection.border (fun e => test (OrderKey.compareKeys keys e.key values)) entries)
  | .positional => do
    let place ← position c
    .ok (min (place + shift) entries.length)

/-- The first place behind a cursor. -/
def placeAfter (strategy : CursorStrategy) (keys : List OrderKey) (entries : List (Entry ρ))
    (c : Cursor) : Except CursorFault Nat :=
  placeBy Ordering.isLE 1 strategy keys entries c

/-- The first place that is not in front of a cursor. -/
def placeBefore (strategy : CursorStrategy) (keys : List OrderKey) (entries : List (Entry ρ))
    (c : Cursor) : Except CursorFault Nat :=
  placeBy Ordering.isLT 0 strategy keys entries c

/-- A bound that a cursor sets, or the bound without a cursor. -/
def boundOr (bound : Cursor → Except CursorFault Nat) (unbounded : Nat) :
    Option Cursor → Except QueryError Nat
  | some c => (bound c).mapError .cursor
  | none => .ok unbounded

/-- The window between two bounds, empty if they cross. -/
def enclosed (start stop : Except QueryError Nat) : Except QueryError Window := do
  let start ← start
  let stop ← stop
  .ok ⟨start, max stop start⟩

/-- The window that the cursors of a query leave. -/
def cursorWindow (strategy : CursorStrategy) (keys : List OrderKey) (entries : List (Entry ρ))
    (after before : Option Cursor) : Except QueryError Window :=
  enclosed (boundOr (placeAfter strategy keys entries) 0 after)
    (boundOr (placeBefore strategy keys entries) entries.length before)

/-- The cursor of the row at a place. -/
def cursorAt (strategy : CursorStrategy) (keys : List OrderKey) (place : Nat) (e : Entry ρ) :
    Cursor :=
  match strategy with
  | .keyset => Cursor.ofPairs ((keys.map OrderKey.field).zip e.key)
  | .positional => Cursor.ofPairs [(positionField, .int (Int64.ofNat place))]

/-- The page of the rows in a window. -/
def ofWindow (options : PageOptions) (keys : List OrderKey) (entries : List (Entry ρ))
    (w : Window) : Page ρ :=
  let items := w.slice entries
  let cursor (place : Nat) (e : Entry ρ) : Cursor := cursorAt options.strategy keys place e
  { items := items.map Entry.row
    info :=
      { hasNext := w.stop < entries.length
        hasPrevious := 0 < w.start
        startCursor := items.head?.map (cursor w.start)
        endCursor := items.getLast?.map (cursor (w.stop - 1))
        totalCount := if options.countTotal then some entries.length else none } }

end Page

/-- The page of the rows that a query asks for. -/
def paginate {ρ : Type} [Record ρ] (options : PageOptions) (q : Query) (rows : List ρ) :
    Except QueryError (Page ρ) := do
  let keys := OrderKey.sortKeys q.order options.tiebreaker
  let entries := Page.candidates keys q.filters rows
  let window ← Page.cursorWindow options.strategy keys entries q.after q.before
  .ok (Page.ofWindow options keys entries (window.cut q.offset q.limit q.first q.last))

namespace Query

/-- The query for the rows behind a page, as many as asked for, if the page has a last row. -/
def onward (q : Query) (info : PageInfo) (n : Nat) : Option (Except QueryError Query) :=
  info.endCursor.map fun c => (q.startAfter c).takeFirst n

/-- The query for the rows in front of a page, as many as asked for, if the page has a first row. -/
def backward (q : Query) (info : PageInfo) (n : Nat) : Option (Except QueryError Query) :=
  info.startCursor.map fun c => (q.stopBefore c).takeLast n

end Query

end RowQuery
