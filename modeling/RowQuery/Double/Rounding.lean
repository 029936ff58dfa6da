import RowQuery.Double.Basic

/-!
# Rounding to binary64

Every number that is computed or read is the double nearest to an exact quotient of naturals, a tie
going to the even neighbour, and a quotient beyond the largest finite number to infinity. Products
and quotients of finite numbers and the widening of a 32-bit number are defined from it.

Results:
* `roundHalfEven_mul_self`: a whole quotient is its own rounding.
* `roundHalfEven_mono`: rounding keeps the order of quotients with one denominator.
-/

namespace RowQuery.Double

/-- The integer nearest to `num / den`; a tie goes to the even neighbour. -/
def roundHalfEven (num den : Nat) : Nat :=
  let q := num / den
  let r := num % den
  if 2 * r < den then q else if den < 2 * r then q + 1 else q + q % 2

/-- The magnitude of the double nearest to `num / den`. -/
def nearestMagnitude (num den : Nat) : Nat :=
  let units := (num <<< 1074) / den
  let shift := Nat.log2 units - 52
  min (shift * 0x10000000000000 + roundHalfEven (num <<< 1074) (den <<< shift)) infiniteMagnitude

/-- The double nearest to `num / den`, with the given sign. -/
def nearest (negative : Bool) (num den : Nat) : Double :=
  ofMagnitude negative (nearestMagnitude num den)

def ofInt (i : Int) : Double := nearest (decide (i < 0)) i.natAbs 1

/-- The product of two finite numbers, rounded. -/
def mul (a b : Double) : Double :=
  nearest (a.isNegative != b.isNegative)
    ((a.significand * b.significand) <<< (a.scale + b.scale)) (1 <<< 2148)

/-- The quotient of a finite number by a finite number other than zero, rounded. -/
def div (a b : Double) : Double :=
  nearest (a.isNegative != b.isNegative) (a.significand <<< a.scale) (b.significand <<< b.scale)

/-- The double equal to a 32-bit floating-point number. An infinity stays one, and a NaN keeps its
sign and payload and becomes quiet. -/
def ofBinary32 (bits : UInt32) : Double :=
  let negative := decide (0x80000000 ≤ bits.toNat)
  let exponent := bits.toNat / 0x800000 % 256
  let fraction := bits.toNat % 0x800000
  if exponent = 255 then
    ofMagnitude negative
      (infiniteMagnitude +
        if fraction = 0 then 0 else (fraction % 0x400000) <<< 29 + 0x8000000000000)
  else if exponent = 0 then
    nearest negative fraction (1 <<< 149)
  else
    ofMagnitude negative ((exponent + 896) <<< 52 + fraction <<< 29)

theorem roundHalfEven_mul_self (n : Nat) {den : Nat} (h : 0 < den) :
    roundHalfEven (n * den) den = n := by
  simp [roundHalfEven, Nat.mul_div_cancel n h, h]

theorem roundHalfEven_mono {m n den : Nat} (h : m ≤ n) :
    roundHalfEven m den ≤ roundHalfEven n den := by
  rcases Nat.eq_zero_or_pos den with rfl | hden
  · have hm : 0 < 2 * m ∨ m = 0 := by omega
    simp only [roundHalfEven, Nat.div_zero, Nat.mod_zero]
    repeat' split
    all_goals omega
  · have hq : m / den ≤ n / den := Nat.div_le_div_right h
    have hm := Nat.div_add_mod m den
    have hn := Nat.div_add_mod n den
    rcases Nat.lt_or_eq_of_le hq with hlt | heq
    · simp only [roundHalfEven]
      repeat' split
      all_goals omega
    · rw [heq] at hm
      simp only [roundHalfEven, heq]
      have hr : m % den ≤ n % den := by omega
      repeat' split
      all_goals omega

end RowQuery.Double
