/-!
# Integers of 64 bits

Integers read from texts are unbounded at first; those that fit into 64 bits are kept.

Results: `int64?_toInt` keeps every 64-bit integer, and `toInt_of_int64?` says that what is kept has
its value.
-/

namespace RowQuery.Word

/-- The 64-bit integer equal to an integer, if there is one. -/
def int64? (i : Int) : Option Int64 :=
  if -9223372036854775808 ≤ i ∧ i ≤ 9223372036854775807 then some (Int64.ofInt i) else none

/-- The natural number of 64 bits equal to an integer, if there is one. -/
def count? (i : Int) : Option Nat := if 0 ≤ i ∧ i < UInt64.size then some i.toNat else none

theorem int64?_toInt (i : Int64) : int64? i.toInt = some i := by
  have hlow := i.le_toInt
  have hhigh := i.toInt_lt
  have h : -9223372036854775808 ≤ i.toInt ∧ i.toInt ≤ 9223372036854775807 := by omega
  simp [int64?, h]

theorem toInt_of_int64? {i : Int} {n : Int64} (h : int64? i = some n) : n.toInt = i := by
  simp only [int64?] at h
  split at h
  · rename_i hi
    obtain rfl := Option.some.inj h
    exact Int64.toInt_ofInt_of_le (by omega) (by omega)
  · cases h

end RowQuery.Word
