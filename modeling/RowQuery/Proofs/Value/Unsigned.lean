import RowQuery.Proofs.Value.Agreement

/-!
# Unsigned numbers keep their order

An unsigned number of 64 bits is an integer value as far as those reach, and the nearest double beyond
them. So two of them are compared in three ways: two integers exactly, two doubles as they are, and an
integer with a double after rounding it. Rounding keeps the order, so no two numbers change places, but
numbers that are rounded to the same double tie. At the border the largest integer ties with the doubles
behind it, to which it is rounded as well.

Results:
* `ofUnsigned_cases`: which values unsigned numbers become.
* `compares_ofUnsigned`: comparing and sorting them is one order.
* `unsignedOrder_isLE`, `unsignedOrder_eq_iff`: in that order no two of them change places, and which tie.
* `ofUnsigned_mono`: all of it.
-/

namespace RowQuery

namespace Double

theorem totalCompare_ofInt_isLE {i j : Int} (h : i ≤ j) :
    ((ofInt i).totalCompare (ofInt j)).isLE :=
  Int.isLE_compare.mpr (totalKey_ofInt_mono h)

/-- Rounded integers have a numeric order, and it is the total one. -/
theorem compare?_ofInt (i j : Int) :
    (ofInt i).compare? (ofInt j) = some ((ofInt i).totalCompare (ofInt j)) := by
  cases h : (ofInt i).compare? (ofInt j) with
  | none =>
    rcases compare?_eq_none_iff.mp h with hi | hj
    · rw [isNaN_ofInt] at hi
      cases hi
    · rw [isNaN_ofInt] at hj
      cases hj
  | some o =>
    rw [totalCompare_of_numeric (ofInt_ne_negativeZero i) (ofInt_ne_negativeZero j) h]

end Double

namespace Value

/-! ## Values of unsigned numbers -/

/-- The first number beyond the integers of 64 bits. -/
def beyondIntegers : Nat := 0x8000000000000000

theorem exists_int_of_lt {n : UInt64} (h : n.toNat < beyondIntegers) :
    ∃ i : Int64, ofUnsigned n = .int i ∧ i.toInt = n.toNat :=
  ⟨Int64.ofNat n.toNat, if_pos h, Int64.toInt_ofNat_of_lt h⟩

theorem ofUnsigned_of_le {n : UInt64} (h : beyondIntegers ≤ n.toNat) :
    ofUnsigned n = .float (Double.ofInt n.toNat) :=
  if_neg (Nat.not_lt.mpr h)

/-- An unsigned number becomes the integer of its size, or beyond the integers the nearest double. -/
theorem ofUnsigned_cases (n : UInt64) :
    (∃ i : Int64, ofUnsigned n = .int i ∧ i.toInt = n.toNat) ∨
      beyondIntegers ≤ n.toNat ∧ ∃ x : Double, ofUnsigned n = .float x ∧ x.IsNearest n.toNat := by
  rcases Nat.lt_or_ge n.toNat beyondIntegers with hn | hn
  · exact .inl (exists_int_of_lt hn)
  · have hsize : (n.toNat : Int).natAbs ≤ 0x10000000000000000 := Nat.le_of_lt n.toNat_lt
    exact .inr ⟨hn, _, ofUnsigned_of_le hn, Double.isNearest_ofInt hsize⟩

/-! ## Their order -/

/-- The order of two unsigned numbers: the exact one as long as both are integers, and otherwise that of
the doubles they are rounded to. -/
def unsignedOrder (m n : UInt64) : Ordering :=
  if m.toNat < beyondIntegers ∧ n.toNat < beyondIntegers then compare (m.toNat : Int) n.toNat
  else (Double.ofInt m.toNat).totalCompare (Double.ofInt n.toNat)

/-- Unsigned numbers are sorted and compared in one order. -/
theorem compares_ofUnsigned (m n : UInt64) :
    sortCompare (ofUnsigned m) (ofUnsigned n) = unsignedOrder m n ∧
      compare? (ofUnsigned m) (ofUnsigned n) = some (unsignedOrder m n) := by
  have hrounded := Double.compare?_ofInt m.toNat n.toNat
  unfold unsignedOrder
  rcases Nat.lt_or_ge m.toNat beyondIntegers with hm | hm
  · obtain ⟨i, hi, him⟩ := exists_int_of_lt hm
    rcases Nat.lt_or_ge n.toNat beyondIntegers with hn | hn
    · obtain ⟨j, hj, hjn⟩ := exists_int_of_lt hn
      rw [if_pos ⟨hm, hn⟩, hi, hj, sortCompare, compare?, him, hjn]
      exact ⟨rfl, rfl⟩
    · rw [if_neg fun hsmall => Nat.not_lt.mpr hn hsmall.2, hi, ofUnsigned_of_le hn, sortCompare,
        compare?, him]
      exact ⟨rfl, hrounded⟩
  · rcases Nat.lt_or_ge n.toNat beyondIntegers with hn | hn
    · obtain ⟨j, hj, hjn⟩ := exists_int_of_lt hn
      rw [if_neg fun hsmall => Nat.not_lt.mpr hm hsmall.1, hj, ofUnsigned_of_le hm, sortCompare,
        compare?, hjn]
      exact ⟨rfl, hrounded⟩
    · rw [if_neg fun hsmall => Nat.not_lt.mpr hm hsmall.1, ofUnsigned_of_le hm, ofUnsigned_of_le hn,
        sortCompare, compare?]
      exact ⟨rfl, hrounded⟩

section Order

variable {m n : UInt64} (h : m ≤ n)
include h

/-- Unsigned numbers do not change places. -/
theorem unsignedOrder_isLE : (unsignedOrder m n).isLE := by
  have hle : (m.toNat : Int) ≤ n.toNat := Int.ofNat_le.mpr (UInt64.le_iff_toNat_le.mp h)
  unfold unsignedOrder
  split
  · exact Int.isLE_compare.mpr hle
  · exact Double.totalCompare_ofInt_isLE hle

/-- Unsigned numbers tie if they are equal, or one is beyond the integers and they are rounded to the same
double. -/
theorem unsignedOrder_eq_iff :
    unsignedOrder m n = .eq ↔
      m = n ∨ beyondIntegers ≤ n.toNat ∧ Double.ofInt m.toNat = Double.ofInt n.toNat := by
  have hle : m.toNat ≤ n.toNat := UInt64.le_iff_toNat_le.mp h
  unfold unsignedOrder
  split
  · next hsmall =>
    rw [Int.compare_eq_eq, Int.ofNat_inj, UInt64.toNat_inj]
    constructor
    · exact Or.inl
    · exact fun htie => htie.resolve_right fun hrounded => Nat.not_lt.mpr hrounded.1 hsmall.2
  · next hlarge =>
    rw [Double.totalCompare_eq_eq_iff]
    constructor
    · intro hrounded
      have hbeyond : beyondIntegers ≤ n.toNat :=
        Nat.not_lt.mp fun hn => hlarge ⟨Nat.lt_of_le_of_lt hle hn, hn⟩
      exact .inr ⟨hbeyond, hrounded⟩
    · rintro (rfl | ⟨_, hrounded⟩)
      · rfl
      · exact hrounded

/-- Of two unsigned numbers the larger one is neither sorted nor compared as the smaller one. They tie if
and only if they are equal, or rounded to the same double where the larger one is beyond the integers.
Every unsigned number becomes the integer of its size, or beyond the integers the double that is nearest
to it, and of two that are as near the even one. -/
theorem ofUnsigned_mono :
    (∃ o, sortCompare (ofUnsigned m) (ofUnsigned n) = o ∧
      compare? (ofUnsigned m) (ofUnsigned n) = some o ∧ o ≠ .gt ∧
      (o = .eq ↔ m = n ∨
        beyondIntegers ≤ n.toNat ∧ Double.ofInt m.toNat = Double.ofInt n.toNat)) ∧
    ∀ k : UInt64, (∃ i : Int64, ofUnsigned k = .int i ∧ i.toInt = k.toNat) ∨
      beyondIntegers ≤ k.toNat ∧ ∃ x : Double, ofUnsigned k = .float x ∧ x.IsNearest k.toNat := by
  obtain ⟨hsort, hcompare⟩ := compares_ofUnsigned m n
  have hle : unsignedOrder m n ≠ .gt := Ordering.isLE_iff_ne_gt.mp (unsignedOrder_isLE h)
  exact ⟨⟨_, hsort, hcompare, hle, unsignedOrder_eq_iff h⟩, ofUnsigned_cases⟩

end Order

/-- The largest integer ties with a number in the middle between two doubles: both are rounded to the
even one of them. -/
theorem ofUnsigned_mono_border :
    (9223372036854775807 : UInt64) ≤ 9223372036854776832 ∧
    ofUnsigned 9223372036854775807 = .int 9223372036854775807 ∧
    ofUnsigned 9223372036854776832 = .float ⟨0x43E0000000000000⟩ ∧
    sortCompare (ofUnsigned 9223372036854775807) (ofUnsigned 9223372036854776832) = .eq ∧
    compare? (ofUnsigned 9223372036854775807) (ofUnsigned 9223372036854776832) = some .eq := by
  have hle : (9223372036854775807 : UInt64) ≤ 9223372036854776832 := by decide
  obtain ⟨⟨o, hsort, hcompare, _, htie⟩, _⟩ := ofUnsigned_mono hle
  have heq : o = .eq := htie.mpr (.inr (by decide +kernel))
  rw [heq] at hsort hcompare
  exact ⟨hle, by decide +kernel, by decide +kernel, hsort, hcompare⟩

end Value

end RowQuery
