import RowQuery.Value.Order

/-!
# The order in which values are sorted

`sortCompare` answers for every two values, and the answer for the values in the opposite order is the
opposite answer. It is no total order on all values, because integers are compared with each other
exactly and with floating-point numbers after rounding. What is proved about sorting therefore assumes
of the values at hand that the order is transitive on them.

Results: `sortCompare_swap`, exchanging the values turns the answer around.
-/

namespace RowQuery.Value

/-! ## Opposite values -/

namespace SortOrderLemmas

theorem compare_swap_timestamp (s t : Timestamp) : (s.compare t).swap = t.compare s := by
  unfold Timestamp.compare
  rw [Ordering.swap_then, ← Std.OrientedOrd.eq_swap, ← Std.OrientedOrd.eq_swap]

theorem totalCompare_swap (x y : Double) : (x.totalCompare y).swap = y.totalCompare x :=
  Std.OrientedOrd.eq_swap.symm

end SortOrderLemmas

open SortOrderLemmas

mutual

/-- Exchanging the values turns the answer around. -/
theorem sortCompare_swap (a b : Value) : (sortCompare a b).swap = sortCompare b a := by
  -- Values of different kinds are compared by their ranks, which are numerals, so `rfl` decides them.
  cases a with
  | null => cases b <;> rfl
  | bool a =>
    cases b with
    | bool b => exact Std.OrientedOrd.eq_swap.symm
    | _ => rfl
  | int i =>
    cases b with
    | int j => exact Std.OrientedOrd.eq_swap.symm
    | float y => exact totalCompare_swap (Double.ofInt i.toInt) y
    | _ => rfl
  | float x =>
    cases b with
    | int j => exact totalCompare_swap x (Double.ofInt j.toInt)
    | float y => exact totalCompare_swap x y
    | _ => rfl
  | string s =>
    cases b with
    | string t => exact Std.OrientedOrd.eq_swap.symm
    | _ => rfl
  | dateTime s =>
    cases b with
    | dateTime t => exact compare_swap_timestamp s t
    | _ => rfl
  | list as =>
    cases b with
    | list bs => exact sortCompareList_swap as bs
    | _ => rfl

theorem sortCompareList_swap (as bs : List Value) :
    (sortCompareList as bs).swap = sortCompareList bs as := by
  cases as with
  | nil => cases bs <;> rfl
  | cons a as =>
    cases bs with
    | nil => rfl
    | cons b bs =>
      unfold sortCompareList
      rw [Ordering.swap_then, sortCompare_swap a b, sortCompareList_swap as bs]

end

instance : Std.OrientedCmp sortCompare := ⟨(sortCompare_swap _ _).symm⟩

end RowQuery.Value
