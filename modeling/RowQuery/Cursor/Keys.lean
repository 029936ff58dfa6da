import RowQuery.Cursor.Basic
import RowQuery.OrderKey

/-!
# The keys that a cursor records

Rows are compared with a cursor by the keys that lead the ordering and are recorded in the cursor, up
to the first key that it lacks.
-/

namespace RowQuery.Cursor

/-- The leading keys of an ordering with the values that the cursor records for them. -/
def leading (c : Cursor) : List OrderKey → List (OrderKey × Value)
  | [] => []
  | k :: rest =>
    match c.get? k.field with
    | some v => (k, v) :: c.leading rest
    | none => []

/-- The leading keys are keys of the ordering, in order and without a gap. -/
theorem map_fst_leading (c : Cursor) (order : List OrderKey) :
    (c.leading order).map Prod.fst <+: order := by
  induction order with
  | nil => simp [leading]
  | cons k rest ih =>
    simp only [leading]
    split
    · simpa using ih
    · simp

theorem leading_eq_nil_iff (c : Cursor) (k : OrderKey) (rest : List OrderKey) :
    c.leading (k :: rest) = [] ↔ c.get? k.field = none := by
  simp only [leading]
  split <;> simp_all

end RowQuery.Cursor
