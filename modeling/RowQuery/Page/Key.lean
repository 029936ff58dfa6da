import RowQuery.OrderKey
import RowQuery.Record
import RowQuery.Value.Order

/-!
# Keys of rows

The keys of an ordering are its fields and, behind them, the field that breaks ties, unless the
ordering has it already. The key of a row holds the row's values of these fields. Keys of rows are
compared value by value, each in the direction of its field; a key that ends early is compared with
the front of the other one.

Results: `sortsBy_sortKeys`, the keys always have the field that breaks ties.
-/

namespace RowQuery

namespace OrderKey

/-- The keys of an ordering made total by a field that breaks ties. -/
def sortKeys (order : List OrderKey) (tiebreaker : String) : List OrderKey :=
  if sortsBy order tiebreaker then order else order ++ [asc tiebreaker]

/-- An outcome of comparing in the direction of a key. -/
def directed (k : OrderKey) (o : Ordering) : Ordering := if k.descending then o.swap else o

/-- The order of two keys of rows. -/
def compareKeys : List OrderKey → List Value → List Value → Ordering
  | k :: ks, a :: as, b :: bs => (k.directed (a.sortCompare b)).then (compareKeys ks as bs)
  | _, _, _ => .eq

def rowKey {ρ : Type} [Record ρ] (keys : List OrderKey) (row : ρ) : List Value :=
  keys.map fun k => Record.value row k.field

theorem sortsBy_sortKeys (order : List OrderKey) (tiebreaker : String) :
    sortsBy (sortKeys order tiebreaker) tiebreaker = true := by
  simp only [sortKeys]
  split
  · assumption
  · simp [sortsBy, asc, of]

theorem length_rowKey {ρ : Type} [Record ρ] (keys : List OrderKey) (row : ρ) :
    (rowKey keys row).length = keys.length := by
  simp [rowKey]

end OrderKey

end RowQuery
