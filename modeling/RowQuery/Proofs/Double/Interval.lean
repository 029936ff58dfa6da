import RowQuery.Double.Shortest
import RowQuery.Proofs.Double.Rounding

/-!
# The interval of a number

Around every finite double lies the interval of the reals that are rounded to it. Its borders lie half
way to the neighbours, and belong to it if the significand is even: a number on a border is as near to
the neighbour, whose significand is odd.

Results:
* `unitsOf_magnitude_succ`, `unitsOf_magnitude_pred`: how far away the neighbours are.
* `nearestMagnitude_of_covers`: a quotient in the interval of a double is rounded to it.
-/

namespace RowQuery.Double

/-! ## Neighbours -/

section Parts

variable (x : Double)

theorem magnitude_eq : x.magnitude = x.scale * 0x10000000000000 + x.significand := by
  unfold scale significand
  split <;> omega

theorem significand_lt : x.significand < 0x20000000000000 := by
  unfold significand
  split <;> omega

theorem scale_eq_zero_or : x.scale = 0 ∨ 0x10000000000000 ≤ x.significand := by
  unfold scale significand
  split <;> omega

theorem significand_pos {x : Double} (h : x.isZero = false) : 0 < x.significand := by
  have hmagnitude : x.magnitude ≠ 0 := by simpa [isZero] using h
  have hparts := x.magnitude_eq
  have hnormal := x.scale_eq_zero_or
  omega

theorem unitsOf_magnitude : unitsOf x.magnitude = x.significand * 2 ^ x.scale := rfl

theorem unitsOf_magnitude_succ :
    unitsOf (x.magnitude + 1) = (x.significand + 1) * 2 ^ x.scale := by
  rw [magnitude_eq, Nat.add_assoc, unitsOf_shift x.significand_lt
    (x.scale_eq_zero_or.imp_right Nat.le_succ_of_le)]

/-- The number below lies twice as far away as the border between. -/
theorem unitsOf_magnitude_pred (h : 0 < x.significand) :
    4 * unitsOf (x.magnitude - 1) + 2 * x.gapBelow * 2 ^ x.scale =
      4 * x.significand * 2 ^ x.scale := by
  unfold gapBelow
  split
  · next hpower =>
    obtain ⟨scale, hscale⟩ : ∃ n, x.scale = n + 1 := ⟨x.scale - 1, by omega⟩
    have hpred : x.magnitude - 1 = scale * 0x10000000000000 + 0x1FFFFFFFFFFFFF := by
      rw [magnitude_eq, hscale, hpower.1]
      omega
    rw [hpred, unitsOf_shift (by decide) (.inr (by decide)), hpower.1, hscale, Nat.pow_succ]
    ring
  · next hpower =>
    have hpred : x.magnitude - 1 = x.scale * 0x10000000000000 + (x.significand - 1) := by
      rw [magnitude_eq]
      omega
    have hbound := x.significand_lt
    have hnormal := x.scale_eq_zero_or
    rw [hpred, unitsOf_shift (by omega) (by omega), ← Nat.mul_assoc, ← Nat.add_mul]
    congr 1
    omega

theorem gapBelow_le : x.gapBelow ≤ 2 := by
  unfold gapBelow
  split <;> omega

theorem gapBelow_pos : 0 < x.gapBelow := by
  unfold gapBelow
  split <;> omega

end Parts

/-! ## Rounding to the middle -/

/-- Whether a quotient lies in the interval of a number. -/
def Covers (x : Double) (num den : Nat) : Prop :=
  if x.significand % 2 = 0 then
    ((4 * x.significand - x.gapBelow) * den) <<< x.scale ≤ num <<< 1076 ∧
      num <<< 1076 ≤ ((4 * x.significand + 2) * den) <<< x.scale
  else
    ((4 * x.significand - x.gapBelow) * den) <<< x.scale < num <<< 1076 ∧
      num <<< 1076 < ((4 * x.significand + 2) * den) <<< x.scale

instance (x : Double) (num den : Nat) : Decidable (x.Covers num den) := by
  unfold Covers
  infer_instance

section Rounding

variable {x : Double} {num den : Nat}

/-- A quotient in the interval is no farther away than the borders, and closer if they are outside. -/
theorem Covers.bounds (hx : 0 < x.significand) (h : x.Covers num den) :
    4 * (unitsOf x.magnitude * den) ≤ 4 * (num <<< 1074) + x.gapBelow * (2 ^ x.scale * den) ∧
      4 * (num <<< 1074) ≤ 4 * (unitsOf x.magnitude * den) + 2 * (2 ^ x.scale * den) ∧
      (x.magnitude % 2 = 1 →
        4 * (unitsOf x.magnitude * den) < 4 * (num <<< 1074) + x.gapBelow * (2 ^ x.scale * den) ∧
        4 * (num <<< 1074) < 4 * (unitsOf x.magnitude * den) + 2 * (2 ^ x.scale * den)) := by
  have hquarters : num <<< 1076 = 4 * (num <<< 1074) := by
    rw [show (1076 : Nat) = 1074 + 2 from rfl, Nat.shiftLeft_add, Nat.shiftLeft_eq _ 2, Nat.mul_comm]
  have hlow : ((4 * x.significand - x.gapBelow) * den) <<< x.scale + x.gapBelow * (2 ^ x.scale * den) =
      4 * (unitsOf x.magnitude * den) := by
    have hgap := x.gapBelow_le
    rw [Nat.shiftLeft_eq, Nat.mul_right_comm, Nat.mul_assoc, ← Nat.add_mul,
      Nat.sub_add_cancel (by omega), unitsOf_magnitude]
    ring
  have hhigh : ((4 * x.significand + 2) * den) <<< x.scale =
      4 * (unitsOf x.magnitude * den) + 2 * (2 ^ x.scale * den) := by
    rw [Nat.shiftLeft_eq, unitsOf_magnitude]
    ring
  have hparity : x.magnitude % 2 = x.significand % 2 := by
    rw [magnitude_eq]
    omega
  unfold Covers at h
  rw [hquarters, hhigh] at h
  split at h <;> omega

/-- A quotient in the interval is positive. -/
theorem Covers.pos (hx : 0 < x.significand) (hden : 0 < den) (h : x.Covers num den) :
    0 < num := by
  have hlow : 0 < ((4 * x.significand - x.gapBelow) * den) <<< x.scale := by
    have hgap := x.gapBelow_le
    rw [Nat.shiftLeft_eq]
    exact Nat.mul_pos (Nat.mul_pos (by omega) hden) (Nat.two_pow_pos _)
  rcases Nat.eq_zero_or_pos num with rfl | hpos
  · unfold Covers at h
    rw [Nat.zero_shiftLeft] at h
    split at h <;> omega
  · exact hpos

/-- A quotient in the interval of a number is rounded to it. -/
theorem roundedMagnitude_of_covers (hx : 0 < x.significand) (hden : 0 < den)
    (h : x.Covers num den) : roundedMagnitude num den = x.magnitude := by
  obtain ⟨hlow, hhigh, hodd⟩ := h.bounds hx
  obtain ⟨hnearest, heven⟩ := roundedMagnitude_nearest num hden x.magnitude
  have hstep : 0 < 2 ^ x.scale * den := Nat.mul_pos (Nat.two_pow_pos _) hden
  have hsucc : unitsOf (x.magnitude + 1) * den = unitsOf x.magnitude * den + 2 ^ x.scale * den := by
    rw [unitsOf_magnitude_succ, unitsOf_magnitude]
    ring
  have hpred : 4 * (unitsOf (x.magnitude - 1) * den) + 2 * (x.gapBelow * (2 ^ x.scale * den)) =
      4 * (unitsOf x.magnitude * den) := by
    rw [← Nat.mul_assoc 4, ← Nat.mul_assoc 4, unitsOf_magnitude, ← Nat.mul_assoc 4,
      ← unitsOf_magnitude_pred x hx]
    ring
  have hgap : 0 < x.gapBelow * (2 ^ x.scale * den) := Nat.mul_pos x.gapBelow_pos hstep
  have hmono {m n : Nat} (hle : m ≤ n) : unitsOf m * den ≤ unitsOf n * den :=
    Nat.mul_le_mul_right den (unitsOf_strictMono.monotone hle)
  have hinj {m n : Nat} (heq : unitsOf m * den = unitsOf n * den) : m = n :=
    unitsOf_strictMono.injective (Nat.eq_of_mul_eq_mul_right hden heq)
  generalize num <<< 1074 = n at *
  generalize roundedMagnitude num den = r at *
  -- Only a neighbour can be as near, and only at a border, where the neighbour is odd and loses the tie.
  rcases Nat.lt_trichotomy r x.magnitude with hbelow | hsame | habove
  · have hle := hmono (Nat.le_sub_one_of_lt hbelow)
    have hr : r = x.magnitude - 1 := hinj (by omega)
    rcases heven (by omega) with hunits | hparity
    · exact (unitsOf_strictMono.injective hunits).symm
    · omega
  · exact hsame
  · have hle := hmono (Nat.add_one_le_iff.mpr habove)
    have hr : r = x.magnitude + 1 := hinj (by omega)
    rcases heven (by omega) with hunits | hparity
    · exact (unitsOf_strictMono.injective hunits).symm
    · omega

theorem nearestMagnitude_of_covers (hfinite : x.isFinite = true) (hx : 0 < x.significand)
    (hden : 0 < den) (h : x.Covers num den) : nearestMagnitude num den = x.magnitude := by
  rw [nearestMagnitude_eq, roundedMagnitude_of_covers hx hden h]
  exact Nat.min_eq_left (Nat.le_of_lt (of_decide_eq_true hfinite))

end Rounding

end RowQuery.Double
