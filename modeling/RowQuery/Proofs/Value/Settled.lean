import RowQuery.Proofs.Timestamp.Settled
import RowQuery.Value.Basic

/-!
# Values with settled points in time

A value holds points in time itself or inside its lists. Its settled form has each of them replaced by the
point that its text says, and it is the value itself if and only if they are all settled.
-/

namespace RowQuery.Value

mutual

/-- Whether every point in time inside a value is settled. -/
def areTimesSettled : Value → Bool
  | .dateTime t => t.isSettled
  | .list items => areItemTimesSettled items
  | _ => true

def areItemTimesSettled : List Value → Bool
  | [] => true
  | v :: rest => v.areTimesSettled && areItemTimesSettled rest

end

mutual

/-- The value with the settled form of every point in time inside. -/
def settled : Value → Value
  | .dateTime t => .dateTime t.settled
  | .list items => .list (settledItems items)
  | v => v

def settledItems : List Value → List Value
  | [] => []
  | v :: rest => v.settled :: settledItems rest

end

mutual

theorem settled_eq_self_iff (v : Value) : v.settled = v ↔ v.areTimesSettled = true := by
  cases v with
  | dateTime t => exact (dateTime.injEq _ _).to_iff.trans t.settled_eq_self_iff
  | list items => exact (list.injEq _ _).to_iff.trans (settledItems_eq_self_iff items)
  | null | bool _ | int _ | float _ | string _ => exact iff_of_true rfl rfl

theorem settledItems_eq_self_iff (items : List Value) :
    settledItems items = items ↔ areItemTimesSettled items = true := by
  cases items with
  | nil => exact iff_of_true rfl rfl
  | cons v rest =>
    unfold settledItems areItemTimesSettled
    rw [List.cons.injEq, settled_eq_self_iff v, settledItems_eq_self_iff rest, Bool.and_eq_true]

end

/-- A list of values is the list of their settled forms if and only if they are settled. -/
theorem map_settled_eq_self_iff {items : List Value} :
    items.map settled = items ↔ ∀ v ∈ items, v.areTimesSettled = true := by
  induction items with
  | nil => exact iff_of_true rfl nofun
  | cons v rest ih =>
    rw [List.map_cons, List.cons.injEq, settled_eq_self_iff, ih, List.forall_mem_cons]

end RowQuery.Value
