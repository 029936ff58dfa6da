import RowQuery.Value.Basic

/-!
# Comparing values

Three relations are defined on values.

* `compare?` orders values of comparable kinds and no others.
* `sortCompare` orders all values: null, booleans, numbers, texts, timestamps, lists.
* `looselyEquals` is equality, with an integer equal to the floating-point number of its size.

An integer meets a floating-point number after rounding to the nearest double. Texts are ordered by
code point, lists element by element and then by length.
-/

namespace RowQuery.Value

/-- The place of a kind among the kinds. -/
def rank : Value → Nat
  | .null => 0
  | .bool _ => 1
  | .int _ | .float _ => 2
  | .string _ => 3
  | .dateTime _ => 4
  | .list _ => 5

mutual

/-- The order of two values of comparable kinds. -/
def compare? : Value → Value → Option Ordering
  | .null, .null => some .eq
  | .bool a, .bool b => some (compare a b)
  | .int a, .int b => some (compare a.toInt b.toInt)
  | .int a, .float b => (Double.ofInt a.toInt).compare? b
  | .float a, .int b => a.compare? (Double.ofInt b.toInt)
  | .float a, .float b => a.compare? b
  | .string a, .string b => some (compare a b)
  | .dateTime a, .dateTime b => some (a.compare b)
  | .list as, .list bs => compareList? as bs
  | _, _ => none

/-- The order of two lists: the first elements that differ decide, then the lengths. -/
def compareList? : List Value → List Value → Option Ordering
  | [], [] => some .eq
  | [], _ :: _ => some .lt
  | _ :: _, [] => some .gt
  | a :: as, b :: bs =>
    match compare? a b with
    | some .eq => compareList? as bs
    | o => o

end

mutual

/-- The order in which rows are sorted. -/
def sortCompare : Value → Value → Ordering
  | .bool a, .bool b => compare a b
  | .int a, .int b => compare a.toInt b.toInt
  | .int a, .float b => (Double.ofInt a.toInt).totalCompare b
  | .float a, .int b => a.totalCompare (Double.ofInt b.toInt)
  | .float a, .float b => a.totalCompare b
  | .string a, .string b => compare a b
  | .dateTime a, .dateTime b => a.compare b
  | .list as, .list bs => sortCompareList as bs
  | a, b => compare a.rank b.rank

/-- The order in which lists are sorted: the first elements that differ decide, then the lengths. -/
def sortCompareList : List Value → List Value → Ordering
  | [], [] => .eq
  | [], _ :: _ => .lt
  | _ :: _, [] => .gt
  | a :: as, b :: bs => (sortCompare a b).then (sortCompareList as bs)

end

mutual

/-- Equality up to the kind of a number. -/
def looselyEquals : Value → Value → Bool
  | .int a, .float b => (Double.ofInt a.toInt).equals b
  | .float a, .int b => a.equals (Double.ofInt b.toInt)
  | .list as, .list bs => looselyEqualsList as bs
  | a, b => a == b

/-- Equality of lists up to the kinds of the numbers in them. -/
def looselyEqualsList : List Value → List Value → Bool
  | [], [] => true
  | a :: as, b :: bs => looselyEquals a b && looselyEqualsList as bs
  | _, _ => false

end

theorem sortCompareList_eq_compareLex (as bs : List Value) :
    sortCompareList as bs = List.compareLex sortCompare as bs := by
  induction as generalizing bs with
  | nil =>
    cases bs <;>
      simp [sortCompareList, List.compareLex_nil_nil, List.compareLex_nil_cons]
  | cons a as ih =>
    cases bs <;>
      simp [sortCompareList, List.compareLex_cons_nil, List.compareLex_cons_cons, ih]

end RowQuery.Value
