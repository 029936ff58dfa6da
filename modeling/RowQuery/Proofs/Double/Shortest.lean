import RowQuery.Proofs.Double.Interval

/-!
# The shortest decimal is found

The search for the shortest decimal goes down two dozen powers of ten. At the last one the multiples are
closer together than a number and the border above it, so there is one in the interval at the latest
then. What is found lies in the interval, and so it is rounded to the number.

Results:
* `multiple?_spec`: what is found for a power of ten lies in the interval.
* `fine_powerAbove`: two dozen powers are enough.
* `shortest_spec`: the shortest decimal of a double is positive and rounded to the double.
-/

namespace RowQuery.Double

/-! ## Powers -/

theorem tenPow_pos (n : Nat) : 0 < tenPow n := Nat.pow_pos (by decide)

theorem tenPow_add (m n : Nat) : tenPow (m + n) = tenPow m * tenPow n := Nat.pow_add 10 m n

/-- Three powers of ten stay below ten powers of two. -/
theorem tenPow_lt_two_pow {m n : Nat} (h : 10 * n < 3 * m) : tenPow n < 2 ^ m := by
  refine (Nat.pow_lt_pow_iff_left (n := 3) (by decide)).mp ?_
  calc tenPow n ^ 3 = (10 ^ 3) ^ n := Nat.pow_right_comm 10 n 3
    _ ≤ (2 ^ 10) ^ n := Nat.pow_le_pow_left (by decide) n
    _ = 2 ^ (10 * n) := (Nat.pow_mul 2 10 n).symm
    _ < 2 ^ (m * 3) := Nat.pow_lt_pow_right (by decide) (by omega)
    _ = (2 ^ m) ^ 3 := Nat.pow_mul 2 m 3

/-- Seven powers of ten exceed 23 powers of two. -/
theorem two_pow_lt_tenPow_mul {m n k : Nat} (h : 7 * m < 23 * n + 7 * k) :
    2 ^ m < tenPow n * 2 ^ k := by
  refine (Nat.pow_lt_pow_iff_left (n := 7) (by decide)).mp ?_
  calc (2 ^ m) ^ 7 = 2 ^ (m * 7) := (Nat.pow_mul 2 m 7).symm
    _ < 2 ^ (23 * n + k * 7) := Nat.pow_lt_pow_right (by decide) (by omega)
    _ = (2 ^ 23) ^ n * (2 ^ k) ^ 7 := by rw [Nat.pow_add, Nat.pow_mul, Nat.pow_mul]
    _ ≤ (10 ^ 7) ^ n * (2 ^ k) ^ 7 :=
      Nat.mul_le_mul_right _ (Nat.pow_le_pow_left (by decide) n)
    _ = (tenPow n * 2 ^ k) ^ 7 := by rw [Nat.mul_pow, Nat.pow_right_comm 10 7 n]; rfl

/-! ## The search -/

section Search

variable {x : Double} {tie : Tie} {k : Int}

/-- The multiple of `10 ^ k` at or below a number, as a count of that power. -/
def multipleBelow (x : Double) (k : Int) : Nat :=
  ((4 * x.significand * tenPow (-k).toNat) <<< x.scale) / (tenPow k.toNat <<< 1076)

/-- Whether the interval of a number has a multiple of `10 ^ k`. -/
def CoversMultiple (x : Double) (k : Int) (d : Nat) : Prop :=
  x.Covers (d * tenPow k.toNat) (tenPow (-k).toNat)

instance (x : Double) (k : Int) (d : Nat) : Decidable (x.CoversMultiple k d) := by
  unfold CoversMultiple
  infer_instance

theorem coversMultiple_eq (x : Double) (k : Int) (d : Nat) :
    decide (x.CoversMultiple k d) =
      if x.significand % 2 = 0 then
        decide (((4 * x.significand - x.gapBelow) * tenPow (-k).toNat) <<< x.scale ≤
            d * tenPow k.toNat <<< 1076) &&
          decide (d * tenPow k.toNat <<< 1076 ≤
            ((4 * x.significand + 2) * tenPow (-k).toNat) <<< x.scale)
      else
        decide (((4 * x.significand - x.gapBelow) * tenPow (-k).toNat) <<< x.scale <
            d * tenPow k.toNat <<< 1076) &&
          decide (d * tenPow k.toNat <<< 1076 <
            ((4 * x.significand + 2) * tenPow (-k).toNat) <<< x.scale) := by
  have hshift : (d * tenPow k.toNat) <<< 1076 = d * tenPow k.toNat <<< 1076 := by
    rw [Nat.shiftLeft_eq, Nat.shiftLeft_eq, Nat.mul_assoc]
  by_cases hparity : x.significand % 2 = 0
  · rw [if_pos hparity, ← Bool.decide_and, decide_eq_decide, ← hshift]
    unfold CoversMultiple Covers
    rw [if_pos hparity]
  · rw [if_neg hparity, ← Bool.decide_and, decide_eq_decide, ← hshift]
    unfold CoversMultiple Covers
    rw [if_neg hparity]

/-- The search takes one of the multiples next to a number, if the interval has one of them. -/
theorem multiple?_spec (tie : Tie) (x : Double) (k : Int) :
    (multiple? tie x k = none ∧ ¬x.CoversMultiple k (x.multipleBelow k + 1)) ∨
      ∃ d, multiple? tie x k = some d ∧ x.CoversMultiple k d := by
  unfold multiple?
  simp only
  rw [← multipleBelow, ← coversMultiple_eq, ← coversMultiple_eq]
  generalize x.multipleBelow k = d
  generalize @compare Nat _ _ _ = middle
  by_cases hbelow : x.CoversMultiple k d <;> by_cases habove : x.CoversMultiple k (d + 1) <;>
    simp only [hbelow, habove, decide_true, decide_false]
  · right
    cases middle with
    | lt => exact ⟨d, rfl, hbelow⟩
    | gt => exact ⟨d + 1, rfl, habove⟩
    | eq =>
      cases tie with
      | up => exact ⟨d + 1, rfl, habove⟩
      | even =>
        refine ⟨d + d % 2, rfl, ?_⟩
        rcases Nat.mod_two_eq_zero_or_one d with heven | hodd
        · rw [heven]
          exact hbelow
        · rw [hodd]
          exact habove
  · exact .inr ⟨d, rfl, hbelow⟩
  · exact .inr ⟨d + 1, rfl, habove⟩
  · exact .inl ⟨trivial, not_false⟩

/-- Multiples that are closer together than a number and its upper border do not miss the interval. -/
theorem coversMultiple_of_fine
    (h : tenPow k.toNat <<< 1076 < (2 * tenPow (-k).toNat) <<< x.scale) :
    x.CoversMultiple k (x.multipleBelow k + 1) := by
  have hpos : 0 < tenPow k.toNat <<< 1076 := by
    rw [Nat.shiftLeft_eq _ 1076]
    exact Nat.mul_pos (tenPow_pos _) (Nat.two_pow_pos 1076)
  have hlow : ((4 * x.significand - x.gapBelow) * tenPow (-k).toNat) <<< x.scale ≤
      (4 * x.significand * tenPow (-k).toNat) <<< x.scale := by
    rw [Nat.shiftLeft_eq, Nat.shiftLeft_eq]
    exact Nat.mul_le_mul_right _ (Nat.mul_le_mul_right _ (Nat.sub_le _ _))
  have hhigh : ((4 * x.significand + 2) * tenPow (-k).toNat) <<< x.scale =
      (4 * x.significand * tenPow (-k).toNat) <<< x.scale + (2 * tenPow (-k).toNat) <<< x.scale := by
    rw [Nat.add_mul, Nat.shiftLeft_eq, Nat.shiftLeft_eq, Nat.shiftLeft_eq, Nat.add_mul]
  have hbelow := Nat.div_mul_le_self ((4 * x.significand * tenPow (-k).toNat) <<< x.scale)
    (tenPow k.toNat <<< 1076)
  have habove := Nat.lt_mul_div_succ ((4 * x.significand * tenPow (-k).toNat) <<< x.scale) hpos
  rw [← multipleBelow] at hbelow
  rw [← multipleBelow, Nat.mul_comm (tenPow k.toNat <<< 1076)] at habove
  have hnext := Nat.add_one_mul (x.multipleBelow k) (tenPow k.toNat <<< 1076)
  have hlt : ((4 * x.significand - x.gapBelow) * tenPow (-k).toNat) <<< x.scale <
      (x.multipleBelow k + 1) * tenPow k.toNat <<< 1076 := Nat.lt_of_le_of_lt hlow habove
  have hgt : (x.multipleBelow k + 1) * tenPow k.toNat <<< 1076 <
      ((4 * x.significand + 2) * tenPow (-k).toNat) <<< x.scale := by
    rw [hnext, hhigh]
    exact Nat.add_lt_add_of_le_of_lt hbelow h
  refine of_decide_eq_true ?_
  rw [coversMultiple_eq, decide_eq_true hlt, decide_eq_true hgt, decide_eq_true (Nat.le_of_lt hlt),
    decide_eq_true (Nat.le_of_lt hgt)]
  exact ite_self true

/-- At the last of two dozen powers, multiples are closer together than the borders. -/
theorem fine_powerAbove (hx : x.isFinite = true) :
    tenPow (x.powerAbove - 23).toNat <<< 1076 <
      (2 * tenPow (-(x.powerAbove - 23)).toNat) <<< x.scale := by
  have hlog : Nat.log2 x.significand ≤ 52 := by
    rcases Nat.eq_zero_or_pos x.significand with hzero | hpos
    · rw [hzero]
      decide
    · exact Nat.le_of_lt_succ ((Nat.log2_lt (Nat.ne_of_gt hpos)).mpr x.significand_lt)
  have hscale : x.scale ≤ 2045 := by
    have hlt : x.magnitude < 0x7FF0000000000000 := of_decide_eq_true hx
    unfold scale
    omega
  have hpower : x.powerAbove - 23 =
      ((Nat.log2 x.significand + x.scale : Nat) - 1073 : Int) * 30103 / 100000 - 22 := by
    unfold powerAbove
    omega
  generalize x.powerAbove - 23 = k at hpower
  rw [Nat.shiftLeft_eq, Nat.shiftLeft_eq]
  rcases Int.le_total 0 k with hwhole | hfraction
  · obtain ⟨m, hm⟩ : ∃ m, x.scale + 1 = m + 1076 := ⟨x.scale + 1 - 1076, by omega⟩
    have hlt : tenPow k.toNat < 2 ^ m := tenPow_lt_two_pow (by omega)
    have hzero : (-k).toNat = 0 := by omega
    calc tenPow k.toNat * 2 ^ 1076 < 2 ^ m * 2 ^ 1076 :=
          Nat.mul_lt_mul_of_pos_right hlt (Nat.two_pow_pos 1076)
      _ = 2 ^ (x.scale + 1) := by rw [hm, Nat.pow_add]
      _ = 2 * tenPow (-k).toNat * 2 ^ x.scale := by rw [hzero, Nat.pow_succ']; rfl
  · have hlt : 2 ^ 1076 < tenPow (-k).toNat * 2 ^ (x.scale + 1) := two_pow_lt_tenPow_mul (by omega)
    have hzero : k.toNat = 0 := by omega
    calc tenPow k.toNat * 2 ^ 1076 = 2 ^ 1076 := by
          rw [hzero, show tenPow 0 = 1 from rfl, Nat.one_mul]
      _ < tenPow (-k).toNat * 2 ^ (x.scale + 1) := hlt
      _ = 2 * tenPow (-k).toNat * 2 ^ x.scale := by rw [Nat.pow_succ']; ring

/-- Going down from a power of ten, the search ends in the interval if the last power has a multiple
there. -/
theorem coversMultiple_coarsest (steps : Nat)
    (h : x.CoversMultiple (k - steps) (x.multipleBelow (k - steps) + 1)) :
    x.CoversMultiple (coarsest tie x (steps + 1) k).exponent (coarsest tie x (steps + 1) k).digits := by
  induction steps generalizing k with
  | zero =>
    rw [Int.natCast_zero, Int.sub_zero] at h
    unfold coarsest
    rcases multiple?_spec tie x k with ⟨_, hnot⟩ | ⟨d, hd, hcovers⟩
    · exact absurd h hnot
    · rw [hd]
      exact hcovers
  | succ steps ih =>
    unfold coarsest
    rcases multiple?_spec tie x k with ⟨hnone, _⟩ | ⟨d, hd, hcovers⟩
    · rw [hnone]
      refine ih ?_
      rwa [Int.sub_sub, Int.add_comm 1, ← Int.natCast_succ]
    · rw [hd]
      exact hcovers

/-- The shortest decimal of a number is positive and rounded to the number. -/
theorem shortest_spec (tie : Tie) (hfinite : x.isFinite = true) (hzero : x.isZero = false) :
    0 < (x.shortest tie).digits ∧
      nearestMagnitude ((x.shortest tie).digits * tenPow (x.shortest tie).exponent.toNat)
        (tenPow (-(x.shortest tie).exponent).toNat) = x.magnitude := by
  have hpos := significand_pos hzero
  have hden : 0 < tenPow (-(x.shortest tie).exponent).toNat := tenPow_pos _
  have hcovers : x.CoversMultiple (x.shortest tie).exponent (x.shortest tie).digits :=
    coversMultiple_coarsest 23 (coversMultiple_of_fine (fine_powerAbove hfinite))
  exact ⟨Nat.pos_of_mul_pos_right (Covers.pos hpos hden hcovers),
    nearestMagnitude_of_covers hfinite hpos hden hcovers⟩

end Search

end RowQuery.Double
