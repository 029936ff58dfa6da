import RowQuery.Query.Basic
import RowQuery.Condition
import RowQuery.Expr.Lowering
import RowQuery.Field

/-!
# Building queries

A query is built step by step, each step giving a new query. `Step` names the steps, and `run` applies
several of them from left to right. A step fails, and gives no query, if its expression cannot be
lowered to filters or if a count that has to be positive is zero.
-/

namespace RowQuery.Query

/-- Replacements for the parts of a query; an absent one keeps the part. -/
structure Update where
  filters : Option (List Filter)
  order : Option (List OrderKey)
  limit : Option Nat
  offset : Option Nat
  after : Option Cursor
  before : Option Cursor
  first : Option Nat
  last : Option Nat
  preload : Option NameSet
deriving DecidableEq

/-- A count that has to be positive. -/
def positive (name : CountName) (n : Nat) : Except QueryError Nat :=
  if 0 < n then .ok n else .error (.zeroCount name)

/-- A replacement for a count that has to be positive, if there is one, or the count as it was. -/
def positiveOr (name : CountName) (replacement current : Option Nat) :
    Except QueryError (Option Nat) :=
  match replacement with
  | some n => (positive name n).map some
  | none => .ok current

def whereField (q : Query) (field : String) (c : Condition) : Query :=
  { q with filters := q.filters ++ [c.toFilter field] }

/-- Adds the filters that an expression is lowered to. -/
def whereExpr (q : Query) (e : Expr) : Except QueryError Query := do
  let filters ← e.toFilters
  .ok { q with filters := q.filters ++ filters }

def orderBy (q : Query) (field : String) (direction : Direction) : Query :=
  { q with order := q.order ++ [OrderKey.of field direction] }

/-- Adds a declared field to the ordering. -/
def orderByField (q : Query) (field : Field) (direction : Direction) : Query :=
  q.orderBy field.name direction

def limitTo (q : Query) (n : Nat) : Except QueryError Query := do
  let n ← positive .limit n
  .ok { q with limit := some n }

def offsetBy (q : Query) (n : Nat) : Query := { q with offset := some n }

/-- Keeps the rows strictly after a cursor. -/
def startAfter (q : Query) (c : Cursor) : Query := { q with after := some c }

/-- Keeps the rows strictly before a cursor. -/
def stopBefore (q : Query) (c : Cursor) : Query := { q with before := some c }

/-- Keeps the first rows of the window. -/
def takeFirst (q : Query) (n : Nat) : Except QueryError Query := do
  let n ← positive .first n
  .ok { q with first := some n }

/-- Keeps the last rows of the window. -/
def takeLast (q : Query) (n : Nat) : Except QueryError Query := do
  let n ← positive .last n
  .ok { q with last := some n }

/-- Adds names of related rows to load along. -/
def preloadAll (q : Query) (names : List String) : Query :=
  { q with preload := q.preload.insertAll names }

/-- Replaces parts of the query. The counts are checked in the order limit, first, last. -/
def copyWith (q : Query) (u : Update) : Except QueryError Query := do
  let limit ← positiveOr .limit u.limit q.limit
  let first ← positiveOr .first u.first q.first
  let last ← positiveOr .last u.last q.last
  .ok
    { filters := u.filters.getD q.filters
      order := u.order.getD q.order
      limit := limit
      offset := u.offset.or q.offset
      after := u.after.or q.after
      before := u.before.or q.before
      first := first
      last := last
      preload := u.preload.getD q.preload }

/-- A step in building a query. -/
inductive Step where
  | whereField (field : String) (condition : Condition)
  | whereExpr (expr : Expr)
  | orderBy (field : String) (direction : Direction)
  | orderByField (field : Field) (direction : Direction)
  | limit (n : Nat)
  | offset (n : Nat)
  | after (cursor : Cursor)
  | before (cursor : Cursor)
  | first (n : Nat)
  | last (n : Nat)
  | preload (names : List String)
  | preloadOne (name : String)
  | copyWith (update : Update)

def step (q : Query) : Step → Except QueryError Query
  | .whereField field condition => .ok (q.whereField field condition)
  | .whereExpr expr => q.whereExpr expr
  | .orderBy field direction => .ok (q.orderBy field direction)
  | .orderByField field direction => .ok (q.orderByField field direction)
  | .limit n => q.limitTo n
  | .offset n => .ok (q.offsetBy n)
  | .after cursor => .ok (q.startAfter cursor)
  | .before cursor => .ok (q.stopBefore cursor)
  | .first n => q.takeFirst n
  | .last n => q.takeLast n
  | .preload names => .ok (q.preloadAll names)
  | .preloadOne name => .ok (q.preloadAll [name])
  | .copyWith update => q.copyWith update

/-- The query after several steps; the first step that fails ends them. -/
def run (q : Query) : List Step → Except QueryError Query
  | [] => .ok q
  | s :: rest => do
    let next ← q.step s
    next.run rest

end RowQuery.Query
