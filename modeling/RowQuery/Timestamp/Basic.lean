import RowQuery.Timestamp.Calendar

/-!
# Points in time

A `Timestamp` is a point in coordinated universal time: whole seconds since 1970, and nanoseconds
within the second. A nanosecond count from `10 ^ 9` on stands for a leap second behind the second. Clocks
insert leap seconds at the end of a minute only, but a point may have such a count on any second. Years
run from -262143 to 262142.

Results: `ext_parts` tells timestamps apart by their two counts; `compare_eq_eq_iff` says that the
order ties equal points only.
-/

namespace RowQuery

/-- A point in coordinated universal time. -/
structure Timestamp where
  seconds : Int
  nanos : Nat
  nanos_lt : nanos < 2000000000
  first_le : -8334601228800 ≤ seconds
  le_last : seconds ≤ 8210266876799

namespace Timestamp

/-- The point with the given counts, if there is one. -/
def ofParts? (seconds : Int) (nanos : Nat) : Option Timestamp :=
  if h : nanos < 2000000000 ∧ -8334601228800 ≤ seconds ∧ seconds ≤ 8210266876799 then
    some ⟨seconds, nanos, h.1, h.2.1, h.2.2⟩
  else none

/-- The beginning of the year 1970. -/
def epoch : Timestamp := ⟨0, 0, by decide, by decide, by decide⟩

instance : Inhabited Timestamp := ⟨epoch⟩

/-- Two points are equal when their counts are. -/
theorem ext_parts {a b : Timestamp} (hs : a.seconds = b.seconds) (hn : a.nanos = b.nanos) :
    a = b := by
  cases a
  cases b
  simp_all

instance : DecidableEq Timestamp := fun a b =>
  if h : a.seconds = b.seconds ∧ a.nanos = b.nanos then isTrue (ext_parts h.1 h.2)
  else isFalse fun e => h ⟨congrArg seconds e, congrArg nanos e⟩

/-- The order of points in time; a leap second follows the second that it extends. -/
def compare (a b : Timestamp) : Ordering :=
  (Ord.compare a.seconds b.seconds).then (Ord.compare a.nanos b.nanos)

theorem compare_eq_eq_iff {a b : Timestamp} : a.compare b = .eq ↔ a = b := by
  simp only [compare, Ordering.then_eq_eq, Std.LawfulEqOrd.compare_eq_iff_eq]
  exact ⟨fun h => ext_parts h.1 h.2, by rintro rfl; exact ⟨rfl, rfl⟩⟩

theorem ofParts?_parts (t : Timestamp) : ofParts? t.seconds t.nanos = some t :=
  dif_pos ⟨t.nanos_lt, t.first_le, t.le_last⟩

end Timestamp

end RowQuery
