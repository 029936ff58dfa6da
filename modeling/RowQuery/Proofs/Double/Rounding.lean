import Mathlib.Order.Monotone.Basic
import Mathlib.Tactic.Ring
import RowQuery.Double.Rounding

/-!
# Rounding takes the nearest number and keeps the order

A finite double is a whole count of units of `2 ^ -1074`. A quotient is rounded to the count that is
nearest to it among those of all doubles: between two powers of two these counts are the multiples of
one power of two, and the quotient lies between two neighbouring multiples.

Results:
* `nearestMagnitude_mono`: of two quotients with one denominator the larger one is rounded to the
  larger double.
* `roundedMagnitude_nearest`, `nearestMagnitude_nearest`: no double is nearer to a quotient than the one
  it is rounded to.
* `unitsOf_strictMono`: larger magnitudes are larger counts.
* `nearestMagnitude_congr`: what a quotient is rounded to does not depend on how it is written.
* `totalKey_ofInt_mono`, `isNearest_ofInt`: the same of integers with their signs.
-/

namespace RowQuery.Double

/-! ## Counts of units -/

/-- The number with some magnitude, counted in units of `2 ^ -1074`. -/
def unitsOf (magnitude : Nat) : Nat :=
  (if magnitude < 0x10000000000000 then magnitude
    else 0x10000000000000 + magnitude % 0x10000000000000) * 2 ^ (magnitude / 0x10000000000000 - 1)

/-- A count with a sign. -/
def signed (negative : Bool) (n : Nat) : Int := if negative then -(n : Int) else n

/-- A finite number, counted in units of `2 ^ -1074`. -/
def units (x : Double) : Int := signed x.isNegative (x.significand * 2 ^ x.scale)

theorem units_eq (x : Double) : x.units = signed x.isNegative (unitsOf x.magnitude) := rfl

theorem natAbs_signed_sub (negative : Bool) (m n : Nat) :
    (signed negative m - signed negative n).natAbs = ((m : Int) - n).natAbs := by
  cases negative <;> simp only [signed, Bool.false_eq_true, if_true, if_false]
  omega

theorem natAbs_signed_not_sub (negative : Bool) (m n : Nat) :
    (signed (!negative) m - signed negative n).natAbs = m + n := by
  cases negative <;> simp only [signed, Bool.not_true, Bool.not_false, Bool.false_eq_true, if_true,
    if_false] <;> omega

/-- A count of `2 ^ shift` units, as large as a significand in that place is. -/
theorem unitsOf_shift {shift r : Nat} (hr : r ≤ 0x20000000000000)
    (hnormal : shift = 0 ∨ 0x10000000000000 ≤ r) :
    unitsOf (shift * 0x10000000000000 + r) = r * 2 ^ shift := by
  have hdiv : (shift * 0x10000000000000 + r) / 0x10000000000000 = shift + r / 0x10000000000000 := by
    omega
  have hmod : (shift * 0x10000000000000 + r) % 0x10000000000000 = r % 0x10000000000000 := by omega
  unfold unitsOf
  rw [hdiv, hmod]
  rcases Nat.lt_or_ge r 0x10000000000000 with hsmall | hlarge
  · have hzero : shift = 0 := hnormal.resolve_right (Nat.not_le_of_lt hsmall)
    subst hzero
    rw [if_pos (by omega), Nat.div_eq_of_lt hsmall, Nat.zero_mul, Nat.zero_add]
  · rw [if_neg (by omega)]
    rcases Nat.lt_or_eq_of_le hr with hlt | rfl
    · have hone : r / 0x10000000000000 = 1 := by omega
      have hrest : 0x10000000000000 + r % 0x10000000000000 = r := by omega
      rw [hone, hrest, Nat.add_sub_cancel]
    · -- A significand of `2 ^ 53` is the first of the next power of two.
      show 0x10000000000000 * 2 ^ (shift + 1) = 0x20000000000000 * 2 ^ shift
      rw [Nat.pow_succ]
      ring

/-- Every magnitude is a significand in the place of a power of two. -/
theorem exists_shift (m : Nat) :
    ∃ shift r, m = shift * 0x10000000000000 + r ∧ r < 0x20000000000000 ∧
      (shift = 0 ∨ 0x10000000000000 ≤ r) := by
  refine ⟨m / 0x10000000000000 - 1, m - (m / 0x10000000000000 - 1) * 0x10000000000000, ?_⟩
  omega

theorem unitsOf_lt_succ (m : Nat) : unitsOf m < unitsOf (m + 1) := by
  obtain ⟨shift, r, rfl, hr, hnormal⟩ := exists_shift m
  rw [Nat.add_assoc, unitsOf_shift (Nat.le_of_lt hr) hnormal,
    unitsOf_shift hr (hnormal.imp_right Nat.le_succ_of_le)]
  exact Nat.mul_lt_mul_of_pos_right (Nat.lt_succ_self r) (Nat.two_pow_pos shift)

/-- Larger magnitudes are larger counts. -/
theorem unitsOf_strictMono : StrictMono unitsOf := strictMono_nat_of_lt_succ unitsOf_lt_succ

/-! ## Quotients -/

/-- A quotient is rounded to one of the integers around it, to the nearer one and from the middle to the
even one. -/
theorem roundHalfEven_cases (num den : Nat) :
    ((roundHalfEven num den = num / den ∧ 2 * (num % den) ≤ den) ∨
      (roundHalfEven num den = num / den + 1 ∧ den ≤ 2 * (num % den))) ∧
    (2 * (num % den) = den → roundHalfEven num den % 2 = 0) := by
  simp only [roundHalfEven]
  split
  · exact ⟨.inl ⟨rfl, by omega⟩, by omega⟩
  · split
    · exact ⟨.inr ⟨rfl, by omega⟩, by omega⟩
    · refine ⟨?_, fun _ => by omega⟩
      rcases Nat.mod_two_eq_zero_or_one (num / den) with heven | hodd
      · exact .inl ⟨by rw [heven, Nat.add_zero], by omega⟩
      · exact .inr ⟨by rw [hodd], by omega⟩

/-- The power of two whose multiples a quotient of units is rounded to. -/
def shiftOf (num den : Nat) : Nat := Nat.log2 ((num <<< 1074) / den) - 52

/-- The magnitude that a quotient is rounded to as if there were no largest finite one. -/
def roundedMagnitude (num den : Nat) : Nat :=
  shiftOf num den * 0x10000000000000 + roundHalfEven (num <<< 1074) (den <<< shiftOf num den)

theorem nearestMagnitude_eq (num den : Nat) :
    nearestMagnitude num den = min (roundedMagnitude num den) infiniteMagnitude := rfl

/-- The multiple below a quotient fits into a significand. -/
theorem quotient_bounds (units : Nat) :
    units / 2 ^ (Nat.log2 units - 52) < 0x20000000000000 ∧
      (Nat.log2 units - 52 = 0 ∨ 0x10000000000000 ≤ units / 2 ^ (Nat.log2 units - 52)) := by
  constructor
  · rw [Nat.div_lt_iff_lt_mul (Nat.two_pow_pos _)]
    have hpow : 2 ^ (Nat.log2 units + 1) ≤ 2 ^ 53 * 2 ^ (Nat.log2 units - 52) := by
      rw [← Nat.pow_add]
      exact Nat.pow_le_pow_right (by decide) (by omega)
    exact Nat.lt_of_lt_of_le Nat.lt_log2_self hpow
  · by_cases hshift : Nat.log2 units - 52 = 0
    · exact .inl hshift
    · right
      have hne : units ≠ 0 := by
        rintro rfl
        exact hshift rfl
      rw [Nat.le_div_iff_mul_le (Nat.two_pow_pos _)]
      have hpow : 2 ^ 52 * 2 ^ (Nat.log2 units - 52) = 2 ^ Nat.log2 units := by
        rw [← Nat.pow_add]
        congr 1
        omega
      exact Nat.le_trans (Nat.le_of_eq hpow) (Nat.log2_self_le hne)

section Quotients

variable {num den : Nat}

/-- The multiple of the power of two below a quotient. -/
theorem floor_bounds (num den : Nat) :
    (num <<< 1074) / (den <<< shiftOf num den) < 0x20000000000000 ∧
      (shiftOf num den = 0 ∨
        0x10000000000000 ≤ (num <<< 1074) / (den <<< shiftOf num den)) := by
  rw [Nat.shiftLeft_eq den, ← Nat.div_div_eq_div_mul]
  exact quotient_bounds ((num <<< 1074) / den)

theorem rounded_bounds (num den : Nat) :
    roundHalfEven (num <<< 1074) (den <<< shiftOf num den) ≤ 0x20000000000000 ∧
      (shiftOf num den = 0 ∨
        0x10000000000000 ≤ roundHalfEven (num <<< 1074) (den <<< shiftOf num den)) := by
  obtain ⟨hupper, hlower⟩ := floor_bounds num den
  have hround := roundHalfEven_cases (num <<< 1074) (den <<< shiftOf num den)
  omega

/-- The larger of two quotients with one denominator is rounded to the larger magnitude. -/
theorem nearestMagnitude_mono (den : Nat) {num' : Nat} (h : num ≤ num') :
    nearestMagnitude num den ≤ nearestMagnitude num' den := by
  have hunits : num <<< 1074 ≤ num' <<< 1074 := by
    rw [Nat.shiftLeft_eq, Nat.shiftLeft_eq]
    exact Nat.mul_le_mul_right _ h
  have hshift : shiftOf num den ≤ shiftOf num' den := by
    unfold shiftOf
    refine Nat.sub_le_sub_right ?_ 52
    rcases Nat.eq_zero_or_pos ((num <<< 1074) / den) with hzero | hpos
    · rw [hzero]
      exact Nat.zero_le _
    · have hle := Nat.div_le_div_right (c := den) hunits
      rw [Nat.le_log2 (Nat.ne_of_gt (Nat.lt_of_lt_of_le hpos hle))]
      exact Nat.le_trans (Nat.log2_self_le (Nat.ne_of_gt hpos)) hle
  rw [nearestMagnitude_eq, nearestMagnitude_eq]
  refine min_le_min ?_ (Nat.le_refl _)
  unfold roundedMagnitude
  rcases Nat.lt_or_eq_of_le hshift with hlt | heq
  · -- In the next power of two the significands start where those of this one end.
    have hbelow := (rounded_bounds num den).1
    have habove := (rounded_bounds num' den).2
    omega
  · rw [heq]
    exact Nat.add_le_add_left (roundHalfEven_mono hunits) _

/-- A quotient is rounded to the magnitude that is nearest to it, and to an even one if another is as
near. -/
theorem roundedMagnitude_nearest (num : Nat) (hden : 0 < den) (m : Nat) :
    ((unitsOf (roundedMagnitude num den) * den : Nat) - (num <<< 1074 : Nat) : Int).natAbs ≤
        ((unitsOf m * den : Nat) - (num <<< 1074 : Nat) : Int).natAbs ∧
      (((unitsOf m * den : Nat) - (num <<< 1074 : Nat) : Int).natAbs =
          ((unitsOf (roundedMagnitude num den) * den : Nat) - (num <<< 1074 : Nat) : Int).natAbs →
        unitsOf m = unitsOf (roundedMagnitude num den) ∨ roundedMagnitude num den % 2 = 0) := by
  have hrounded : roundedMagnitude num den = shiftOf num den * 0x10000000000000
      + roundHalfEven (num <<< 1074) (den <<< shiftOf num den) := rfl
  have hstep : 0 < den <<< shiftOf num den := by
    rw [Nat.shiftLeft_eq]
    exact Nat.mul_pos hden (Nat.two_pow_pos _)
  obtain ⟨hupper, hlower⟩ := floor_bounds num den
  obtain ⟨hle, hnormal⟩ := rounded_bounds num den
  have hcount (r : Nat) : r * 2 ^ shiftOf num den * den = r * (den <<< shiftOf num den) := by
    rw [Nat.shiftLeft_eq]
    ring
  have hdivision := Nat.div_add_mod' (num <<< 1074) (den <<< shiftOf num den)
  have hrest := Nat.mod_lt (num <<< 1074) hstep
  obtain ⟨hround, htie⟩ := roundHalfEven_cases (num <<< 1074) (den <<< shiftOf num den)
  have hcancel : unitsOf m * den = unitsOf (roundedMagnitude num den) * den →
      unitsOf m = unitsOf (roundedMagnitude num den) := Nat.eq_of_mul_eq_mul_right hden
  rw [hrounded, unitsOf_shift hle hnormal] at hcancel ⊢
  rw [hcount] at hcancel ⊢
  generalize (num <<< 1074) / (den <<< shiftOf num den) = q at hdivision hround hupper hlower
  have hnext := Nat.add_one_mul q (den <<< shiftOf num den)
  -- Every other magnitude lies at or below the multiple under the quotient, or at or above the next.
  have houtside : unitsOf m * den ≤ q * (den <<< shiftOf num den) ∨
      (q + 1) * (den <<< shiftOf num den) ≤ unitsOf m * den := by
    rcases Nat.lt_or_ge (shiftOf num den * 0x10000000000000 + q) m with habove | hbelow
    · right
      have hm := Nat.mul_le_mul_right den (unitsOf_strictMono.monotone (Nat.succ_le_of_lt habove))
      rw [Nat.succ_eq_add_one, Nat.add_assoc,
        unitsOf_shift hupper (hlower.imp_right Nat.le_succ_of_le), hcount] at hm
      exact hm
    · left
      have hm := Nat.mul_le_mul_right den (unitsOf_strictMono.monotone hbelow)
      rw [unitsOf_shift (Nat.le_of_lt hupper) hlower, hcount] at hm
      exact hm
  generalize num <<< 1074 = n at *
  generalize den <<< shiftOf num den = step at *
  rcases hround with ⟨hr, hhalf⟩ | ⟨hr, hhalf⟩ <;> rw [hr] at hcancel htie ⊢ <;>
    refine ⟨by omega, fun hdist => ?_⟩ <;> by_cases hmiddle : 2 * (n % step) = step
  all_goals first
    | exact .inr (by omega)
    | exact .inl (hcancel (by omega))

/-- The same of a quotient that is not rounded to infinity. -/
theorem nearestMagnitude_nearest (hden : 0 < den)
    (hfinite : nearestMagnitude num den < infiniteMagnitude) (m : Nat) :
    ((unitsOf (nearestMagnitude num den) * den : Nat) - (num <<< 1074 : Nat) : Int).natAbs ≤
        ((unitsOf m * den : Nat) - (num <<< 1074 : Nat) : Int).natAbs ∧
      (((unitsOf m * den : Nat) - (num <<< 1074 : Nat) : Int).natAbs =
          ((unitsOf (nearestMagnitude num den) * den : Nat) - (num <<< 1074 : Nat) : Int).natAbs →
        unitsOf m = unitsOf (nearestMagnitude num den) ∨ nearestMagnitude num den % 2 = 0) := by
  have hrounded : nearestMagnitude num den = roundedMagnitude num den := by
    rw [nearestMagnitude_eq] at hfinite ⊢
    omega
  rw [hrounded]
  exact roundedMagnitude_nearest num hden m

/-- A quotient that is the count of some magnitude is rounded to it. -/
theorem nearestMagnitude_of_exact (hden : 0 < den) {m : Nat} (hm : m ≤ infiniteMagnitude)
    (h : unitsOf m * den = num <<< 1074) : nearestMagnitude num den = m := by
  have hnearest := (roundedMagnitude_nearest num hden m).1
  have hrounded : roundedMagnitude num den = m :=
    unitsOf_strictMono.injective (Nat.eq_of_mul_eq_mul_right hden (by omega))
  rw [nearestMagnitude_eq, hrounded, Nat.min_eq_left hm]

theorem roundHalfEven_mul_left {c : Nat} (hc : 0 < c) (num den : Nat) :
    roundHalfEven (c * num) (c * den) = roundHalfEven num den := by
  have hlt (a b : Nat) : 2 * (c * a) < c * b ↔ 2 * a < b := by
    rw [Nat.mul_left_comm, Nat.mul_lt_mul_left hc]
  have hgt (a b : Nat) : c * b < 2 * (c * a) ↔ b < 2 * a := by
    rw [Nat.mul_left_comm, Nat.mul_lt_mul_left hc]
  unfold roundHalfEven
  simp only [Nat.mul_div_mul_left _ _ hc, Nat.mul_mod_mul_left, hlt, hgt]

theorem nearestMagnitude_mul_left {c : Nat} (hc : 0 < c) (num den : Nat) :
    nearestMagnitude (c * num) (c * den) = nearestMagnitude num den := by
  have hshift (n k : Nat) : (c * n) <<< k = c * n <<< k := by
    rw [Nat.shiftLeft_eq, Nat.shiftLeft_eq, Nat.mul_assoc]
  unfold nearestMagnitude
  simp only [hshift, Nat.mul_div_mul_left _ _ hc, roundHalfEven_mul_left hc]

theorem nearestMagnitude_shiftLeft (num den k : Nat) :
    nearestMagnitude (num <<< k) (den <<< k) = nearestMagnitude num den := by
  rw [Nat.shiftLeft_eq, Nat.shiftLeft_eq, Nat.mul_comm num, Nat.mul_comm den]
  exact nearestMagnitude_mul_left (Nat.two_pow_pos k) num den

/-- What a quotient is rounded to does not depend on how it is written. -/
theorem nearestMagnitude_congr {num' den' : Nat} (hden : 0 < den) (hden' : 0 < den')
    (h : num * den' = num' * den) : nearestMagnitude num den = nearestMagnitude num' den' := by
  rw [← nearestMagnitude_mul_left hden', ← nearestMagnitude_mul_left hden num', Nat.mul_comm den' num,
    h, Nat.mul_comm num' den, Nat.mul_comm den' den]

end Quotients

/-! ## Integers -/

theorem nearestMagnitude_le (num den : Nat) : nearestMagnitude num den ≤ infiniteMagnitude :=
  Nat.min_le_right _ _

section Sign

variable {negative : Bool} {m : Nat}

theorem magnitude_ofMagnitude (h : m ≤ infiniteMagnitude) :
    (ofMagnitude negative m).magnitude = m := by
  unfold infiniteMagnitude at h
  unfold ofMagnitude magnitude
  cases negative <;> simp <;> omega

theorem isNegative_ofMagnitude (h : m ≤ infiniteMagnitude) :
    (ofMagnitude negative m).isNegative = negative := by
  unfold infiniteMagnitude at h
  unfold ofMagnitude isNegative
  cases negative <;> simp <;> omega

end Sign

theorem magnitude_nearest (negative : Bool) (num den : Nat) :
    (nearest negative num den).magnitude = nearestMagnitude num den :=
  magnitude_ofMagnitude (nearestMagnitude_le num den)

theorem isNegative_nearest (negative : Bool) (num den : Nat) :
    (nearest negative num den).isNegative = negative :=
  isNegative_ofMagnitude (nearestMagnitude_le num den)

theorem ofMagnitude_magnitude (x : Double) : ofMagnitude x.isNegative x.magnitude = x := by
  unfold ofMagnitude
  rw [← toNat_bits, UInt64.ofNat_toNat]

/-- A double with its sign changed. -/
theorem neg_ofMagnitude (negative : Bool) {m : Nat} (h : m ≤ infiniteMagnitude) :
    (ofMagnitude negative m).neg = ofMagnitude (!negative) m := by
  unfold neg
  rw [isNegative_ofMagnitude h, magnitude_ofMagnitude h]

/-- Of two integers the larger one is rounded to a double that does not stand before the other. -/
theorem totalKey_ofInt_mono {i j : Int} (h : i ≤ j) : (ofInt i).totalKey ≤ (ofInt j).totalKey := by
  unfold ofInt totalKey
  rw [magnitude_nearest, magnitude_nearest, isNegative_nearest, isNegative_nearest]
  by_cases hi : i < 0
  · by_cases hj : j < 0
    · have hsize := nearestMagnitude_mono 1 (show j.natAbs ≤ i.natAbs by omega)
      simp only [hi, hj, decide_true, if_true]
      omega
    · simp only [hi, hj, decide_true, decide_false, if_true, Bool.false_eq_true, if_false]
      omega
  · have hj : ¬j < 0 := by omega
    have hsize := nearestMagnitude_mono 1 (show i.natAbs ≤ j.natAbs by omega)
    simp only [hi, hj, decide_false, Bool.false_eq_true, if_false]
    omega

/-- How many units of `2 ^ -1074` one is. -/
def unitsPerOne : Nat := 1 <<< 1074

/-- A finite double is nearest to an integer, and even if another one is as near. -/
structure IsNearest (x : Double) (i : Int) : Prop where
  finite : x.isFinite = true
  nearest : ∀ y : Double, y.isFinite = true →
    (x.units - i * unitsPerOne).natAbs ≤ (y.units - i * unitsPerOne).natAbs
  even : ∀ y : Double, y.isFinite = true →
    (y.units - i * unitsPerOne).natAbs = (x.units - i * unitsPerOne).natAbs →
      y.units = x.units ∨ x.magnitude % 2 = 0

/-- A number of 64 bits is not rounded to infinity. -/
theorem nearestMagnitude_lt {n : Nat} (h : n ≤ 0x10000000000000000) :
    nearestMagnitude n 1 < infiniteMagnitude :=
  Nat.lt_of_le_of_lt (nearestMagnitude_mono 1 h) (by decide +kernel)

theorem mul_unitsPerOne (i : Int) :
    i * unitsPerOne = signed (decide (i < 0)) (i.natAbs <<< 1074) := by
  have hshift (n : Nat) : ((n <<< 1074 : Nat) : Int) = n * unitsPerOne := by
    rw [unitsPerOne, Nat.one_shiftLeft, Nat.shiftLeft_eq, Int.natCast_mul]
  unfold signed
  rw [hshift, ← Int.neg_mul]
  by_cases h : i < 0
  · rw [if_pos (decide_eq_true h), Int.ofNat_natAbs_of_nonpos (Int.le_of_lt h), Int.neg_neg]
  · rw [if_neg (by simpa using h), Int.natAbs_of_nonneg (Int.not_lt.mp h)]

/-- No double is nearer to an integer of 64 bits than the one it is rounded to. -/
theorem isNearest_ofInt {i : Int} (h : i.natAbs ≤ 0x10000000000000000) : (ofInt i).IsNearest i := by
  have hfinite := nearestMagnitude_lt h
  have hmagnitude : (ofInt i).magnitude = nearestMagnitude i.natAbs 1 := magnitude_nearest _ _ _
  have hsign : (ofInt i).isNegative = decide (i < 0) := isNegative_nearest _ _ _
  have hnearest := nearestMagnitude_nearest Nat.one_pos hfinite
  simp only [Nat.mul_one] at hnearest
  have hunits : (ofInt i).units = signed (decide (i < 0)) (unitsOf (nearestMagnitude i.natAbs 1)) := by
    rw [units_eq, hsign, hmagnitude]
  -- Zero is as near as any double of the other sign.
  obtain ⟨hzero, htie⟩ := hnearest 0
  rw [show unitsOf 0 = 0 from rfl] at hzero htie
  have hsigns (y : Double) : y.isNegative = decide (i < 0) ∨ y.isNegative = !decide (i < 0) := by
    cases y.isNegative <;> cases decide (i < 0) <;> simp
  refine ⟨?_, fun y _ => ?_, fun y _ hdistance => ?_⟩
  · show decide ((ofInt i).magnitude < infiniteMagnitude) = true
    rw [hmagnitude, decide_eq_true_eq]
    exact hfinite
  · rw [hunits, mul_unitsPerOne, natAbs_signed_sub, units_eq]
    rcases hsigns y with hy | hy
    · rw [hy, natAbs_signed_sub]
      exact (hnearest y.magnitude).1
    · rw [hy, natAbs_signed_not_sub]
      omega
  · rw [hunits, mul_unitsPerOne, natAbs_signed_sub, units_eq] at hdistance
    rw [hunits, hmagnitude, units_eq]
    rcases hsigns y with hy | hy
    · rw [hy, natAbs_signed_sub] at hdistance
      rw [hy]
      exact ((hnearest y.magnitude).2 hdistance).imp_left (congrArg (signed (decide (i < 0))))
    · rw [hy, natAbs_signed_not_sub] at hdistance
      have hnone : unitsOf y.magnitude = 0 := by omega
      rw [hnone]
      refine (htie (by omega)).imp_left fun hunit => ?_
      rw [← hunit]
      cases y.isNegative <;> cases decide (i < 0) <;> rfl

end RowQuery.Double
