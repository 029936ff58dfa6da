import RowQuery.Proofs.Double.Interval

/-!
# Products and quotients of whole numbers

A product or a quotient of two doubles is rounded once. If the operands are whole numbers that no
rounding has changed, this is the rounding of their exact product or quotient.

Results:
* `exists_unitsOf`: an integer of up to 53 bits is a double.
* `mul_of_isWhole`, `div_of_isWhole`: what is rounded in a product and a quotient of whole numbers.
-/

namespace RowQuery.Double

/-- An integer of up to 53 bits is the count of a magnitude. -/
theorem exists_unitsOf {n : Nat} (h : n < 0x20000000000000) :
    ∃ m, m ≤ infiniteMagnitude ∧ unitsOf m = n <<< 1074 := by
  rcases Nat.eq_zero_or_pos n with rfl | hpos
  · exact ⟨0, Nat.zero_le _, (Nat.zero_shiftLeft 1074).symm⟩
  · have hne : n ≠ 0 := Nat.ne_of_gt hpos
    obtain ⟨k, hk⟩ : ∃ k, Nat.log2 n + k = 52 :=
      ⟨52 - Nat.log2 n, by have hlog := (Nat.log2_lt (k := 53) hne).mpr h; omega⟩
    -- The significand is moved up to its 53 bits.
    have hlow : 0x10000000000000 ≤ n * 2 ^ k := by
      calc 0x10000000000000 = 2 ^ (Nat.log2 n + k) := by rw [hk]
        _ = 2 ^ Nat.log2 n * 2 ^ k := Nat.pow_add 2 _ _
        _ ≤ n * 2 ^ k := Nat.mul_le_mul_right _ (Nat.log2_self_le hne)
    have hhigh : n * 2 ^ k < 0x20000000000000 := by
      calc n * 2 ^ k < 2 ^ (Nat.log2 n + 1) * 2 ^ k :=
            Nat.mul_lt_mul_of_pos_right Nat.lt_log2_self (Nat.two_pow_pos k)
        _ = 2 ^ (Nat.log2 n + k + 1) := by rw [← Nat.pow_add, Nat.add_right_comm]
        _ = 0x20000000000000 := by rw [hk]; rfl
    refine ⟨(1074 - k) * 0x10000000000000 + n * 2 ^ k, ?_, ?_⟩
    · unfold infiniteMagnitude
      omega
    · rw [unitsOf_shift (Nat.le_of_lt hhigh) (.inr hlow), Nat.mul_assoc, ← Nat.pow_add,
        Nat.add_sub_cancel' (by omega), Nat.shiftLeft_eq]

/-- A double that is the natural number `n`, up to its sign. -/
def IsWhole (x : Double) (n : Nat) : Prop := unitsOf x.magnitude = n <<< 1074

theorem isWhole_nearest {n : Nat} (negative : Bool) (h : n < 0x20000000000000) :
    (nearest negative n 1).IsWhole n := by
  obtain ⟨m, hm, hunits⟩ := exists_unitsOf h
  have hrounded : nearestMagnitude n 1 = m :=
    nearestMagnitude_of_exact Nat.one_pos hm (by rw [Nat.mul_one, hunits])
  unfold IsWhole
  rw [magnitude_nearest, hrounded, hunits]

section Whole

variable {a b : Double} {m n : Nat}

theorem mul_of_isWhole (ha : a.IsWhole m) (hb : b.IsWhole n) :
    a.mul b = nearest (a.isNegative != b.isNegative) (m * n) 1 := by
  have hshift (a b i j : Nat) : (a * b) <<< (i + j) = a <<< i * b <<< j := by
    rw [Nat.shiftLeft_eq, Nat.shiftLeft_eq, Nat.shiftLeft_eq, Nat.pow_add, Nat.mul_mul_mul_comm]
  have hproduct : (a.significand * b.significand) <<< (a.scale + b.scale) = (m * n) <<< 2148 := by
    rw [hshift, show (2148 : Nat) = 1074 + 1074 from rfl, hshift, ← ha, ← hb, unitsOf_magnitude,
      unitsOf_magnitude, Nat.shiftLeft_eq, Nat.shiftLeft_eq]
  unfold mul nearest
  rw [hproduct, nearestMagnitude_shiftLeft]

theorem div_of_isWhole (ha : a.IsWhole m) (hb : b.IsWhole n) :
    a.div b = nearest (a.isNegative != b.isNegative) m n := by
  unfold div nearest
  rw [Nat.shiftLeft_eq, Nat.shiftLeft_eq _ b.scale, ← unitsOf_magnitude, ← unitsOf_magnitude, ha, hb,
    nearestMagnitude_shiftLeft]

end Whole

end RowQuery.Double
