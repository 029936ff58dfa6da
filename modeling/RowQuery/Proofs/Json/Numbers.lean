import RowQuery.Json.Number
import RowQuery.Proofs.Double.Arithmetic
import RowQuery.Proofs.Double.Numerals
import RowQuery.Proofs.Json.Documents

/-!
# Floating-point numbers through JSON

Every finite double is written as a number that a document may have. Reading it rounds twice: the digits
are rounded to a double, and this is multiplied or divided by a power of ten. Where both of them are
doubles without rounding, the number is rounded once, and so the double that was written is read back.

Results:
* `isSound_ofDouble`: what is written for a double is a sound document.
* `carries_of_isShort`: a finite double whose number is short is read back.
-/

namespace RowQuery

/-! ## What is written -/

theorem Double.isCanonical_numeral (l : Double.Layout) {x : Double} (h : x.isFinite = true) :
    (l.numeral x).isCanonical = true := by
  unfold Layout.numeral
  rw [Numeral.isCanonical_iff]
  cases hzero : x.isZero with
  | true =>
    exact ⟨List.cons_ne_nil _ _, fun c hc => by rw [List.mem_singleton.mp hc]; rfl, fun _ => rfl,
      fun c => Layout.isDigit_of_mem_wholeFraction⟩
  | false =>
    obtain ⟨hne, hwhole, hfraction, hhead⟩ := l.decimalNumeral_digits x.isNegative
      (Text.digits_ne_nil (x.shortest l.tie).digits) (fun c hc => Text.isDigit_of_mem_digits hc)
      (x.shortest l.tie).exponent
    have hfirst := Text.head_digits (shortest_spec l.tie h hzero).1
    exact ⟨hne, hwhole, fun hc => (hhead hc).resolve_right hfirst, hfraction⟩

theorem Json.isSound_ofDouble (x : Double) : (Json.ofDouble x).isSound = true := by
  unfold Json.ofDouble
  split
  · next h => exact Double.isCanonical_numeral _ h
  · rfl

namespace Numeral

/-! ## The digits -/

theorem ofDigitChars_cons (d : Char) (ds : List Char) (n : Nat) :
    Nat.ofDigitChars 10 (d :: ds) n = Nat.ofDigitChars 10 ds (n * 10 + Text.digitValue d) := by
  rw [Nat.ofDigitChars_cons, Nat.mul_comm 10]
  rfl

theorem le_ofDigitChars (ds : List Char) (n : Nat) : n ≤ Nat.ofDigitChars 10 ds n := by
  rw [Nat.ofDigitChars_eq_ofDigitChars_zero]
  exact Nat.le_add_right_of_le (Nat.le_mul_of_pos_left n (Nat.pow_pos (by decide)))

/-- Digits that fit into 64 bits are gathered without loss. -/
theorem gatherWhole_eq {ds : List Char} {n : Nat} (h : Nat.ofDigitChars 10 ds n < UInt64.size) :
    gatherWhole n ds = (Nat.ofDigitChars 10 ds n, 0) := by
  induction ds generalizing n with
  | nil => rfl
  | cons d ds ih =>
    rw [ofDigitChars_cons] at h ⊢
    simp only [gatherWhole, if_pos (Nat.lt_of_le_of_lt (le_ofDigitChars ds _) h), ih h]

theorem gatherFraction_eq {ds : List Char} {n : Nat} (h : Nat.ofDigitChars 10 ds n < UInt64.size) :
    gatherFraction n ds = (Nat.ofDigitChars 10 ds n, ds.length) := by
  induction ds generalizing n with
  | nil => rfl
  | cons d ds ih =>
    rw [ofDigitChars_cons] at h ⊢
    simp only [gatherFraction, if_pos (Nat.lt_of_le_of_lt (le_ofDigitChars ds _) h), ih h,
      List.length_cons]

/-- Of a number whose digits fit into 64 bits all digits count. -/
theorem toDouble?_eq {n : Numeral} (h : n.significand < UInt64.size) :
    n.toDouble? = (scaled? n.significand n.lastPlace).map fun x =>
      if n.negative then x.neg else x := by
  unfold significand Text.ofDigits at h
  rw [Nat.ofDigitChars_append] at h
  have hwhole := gatherWhole_eq (Nat.lt_of_le_of_lt (le_ofDigitChars n.fraction _) h)
  have hfraction := gatherFraction_eq h
  unfold toDouble? significand lastPlace Text.ofDigits
  simp only [hwhole, hfraction, Int.natCast_zero, Int.add_zero, Nat.ofDigitChars_append]

/-! ## One rounding -/

/-- Whether a number has few digits, and the last one not far from the point: both the integer that the
digits make up and the power of ten of the last one are doubles. -/
def IsShort (n : Numeral) : Prop :=
  n.significand < 0x20000000000000 ∧ -22 ≤ n.lastPlace ∧ n.lastPlace ≤ 22

instance (n : Numeral) : Decidable n.IsShort := by
  unfold IsShort
  infer_instance

/-- The powers of ten up to the 22nd are doubles. -/
theorem isWhole_power {n : Nat} (h : n ≤ 22) : (power n).IsWhole (Double.tenPow n) := by
  have hall : ∀ n ≤ 22, (power n).IsWhole (Double.tenPow n) := by
    unfold Double.IsWhole
    decide +kernel
  exact hall n h

theorem ofInt_natCast (n : Nat) : Double.ofInt n = Double.nearest false n 1 := by
  have hsign : decide ((n : Int) < 0) = false := decide_eq_false (Int.not_lt.mpr (Int.natCast_nonneg n))
  unfold Double.ofInt
  rw [hsign, Int.natAbs_natCast]

/-- Digits and a power of ten that are doubles are rounded once. -/
theorem scaled?_of_short {n : Nat} {exponent : Int} (hn : n < 0x20000000000000)
    (hlow : -22 ≤ exponent) (hhigh : exponent ≤ 22)
    (hfinite : Double.nearestMagnitude (n * Double.tenPow exponent.toNat)
      (Double.tenPow (-exponent).toNat) < Double.infiniteMagnitude) :
    scaled? n exponent = some (Double.nearest false (n * Double.tenPow exponent.toNat)
      (Double.tenPow (-exponent).toNat)) := by
  have hdigits : (Double.ofInt n).IsWhole n := by
    rw [ofInt_natCast]
    exact Double.isWhole_nearest false hn
  have hsign (k : Nat) : ((Double.ofInt n).isNegative != (power k).isNegative) = false := by
    rw [ofInt_natCast, power, Double.isNegative_nearest, Double.isNegative_nearest]
    rfl
  unfold scaled?
  by_cases hneg : exponent < 0
  · have hzero : exponent.toNat = 0 := Int.toNat_of_nonpos (Int.le_of_lt hneg)
    have habs : exponent.natAbs = (-exponent).toNat := by omega
    simp only [if_pos hneg, habs, hzero]
    rw [divideByPower, if_pos (by omega), Double.div_of_isWhole hdigits (isWhole_power (by omega)),
      hsign, show Double.tenPow 0 = 1 from rfl, Nat.mul_one]
  · have hzero : (-exponent).toNat = 0 := by omega
    have hproduct : (Double.ofInt n).mul (power exponent.toNat) =
        Double.nearest false (n * Double.tenPow exponent.toNat) 1 := by
      rw [Double.mul_of_isWhole hdigits (isWhole_power (by omega)), hsign]
    rw [hzero] at hfinite ⊢
    simp only [if_neg hneg, if_pos (show exponent ≤ 308 by omega), hproduct]
    rw [if_pos]
    · rfl
    · exact decide_eq_true (by rw [Double.magnitude_nearest]; exact hfinite)

end Numeral

namespace Json

/-- Whether a double is read back from what is written for it. -/
def carries (x : Double) : Bool := decide ((ofDouble x).toDouble? = some x)

/-- A finite double whose number is short is read back. -/
theorem carries_of_isShort {x : Double} (hfinite : x.isFinite = true)
    (hshort : (numberLayout.numeral x).IsShort) : carries x = true := by
  refine decide_eq_true ?_
  obtain ⟨hn, hlow, hhigh⟩ := hshort
  have hrounded := numberLayout.nearestMagnitude_numeral hfinite
  have hlt : x.magnitude < Double.infiniteMagnitude := of_decide_eq_true hfinite
  have hscaled := Numeral.scaled?_of_short hn hlow hhigh (by rw [hrounded]; exact hlt)
  unfold ofDouble
  rw [if_pos hfinite]
  show (numberLayout.numeral x).toDouble? = _
  rw [Numeral.toDouble?_eq (Nat.lt_trans hn (by decide)), hscaled, Option.map_some,
    Double.Layout.negative_numeral]
  unfold Double.nearest
  rw [hrounded]
  have hvalue := x.ofMagnitude_magnitude
  cases hsign : x.isNegative with
  | false =>
    rw [hsign] at hvalue
    exact congrArg some hvalue
  | true =>
    rw [hsign] at hvalue
    rw [if_pos rfl, Double.neg_ofMagnitude false (Nat.le_of_lt hlt)]
    exact congrArg some hvalue

end Json

end RowQuery
