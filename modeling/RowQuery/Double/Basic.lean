/-!
# Binary64 numbers

A `Double` is the 64 bits of a binary floating-point number, so that the two zeros, the infinities
and the payloads of NaNs are told apart. Two orders are defined on it: the total order of all bit
patterns, and the numeric order, in which the zeros are equal and a NaN has no place.

Masks of bits are written in hexadecimal: `0x8000000000000000` is the sign bit and `0x10000000000000`
the lowest bit of the exponent, `2 ^ 52`.

Results:
* `totalCompare_eq_eq_iff`: the total order ties equal bits only.
* `compare?_eq_none_iff`: only a NaN has no numeric order.
* `totalCompare_of_compare?`: away from the zeros the two orders agree.
-/

namespace RowQuery

/-- A binary floating-point number of 64 bits: a sign, eleven bits of exponent and 52 of fraction. -/
structure Double where
  bits : UInt64
deriving DecidableEq

namespace Double

/-- Ten to a power. -/
def tenPow (n : Nat) : Nat := Nat.pow 10 n

/-- The bits below the sign; among numbers of one sign a larger magnitude is farther from zero. -/
def magnitude (x : Double) : Nat := x.bits.toNat % 0x8000000000000000

def isNegative (x : Double) : Bool := decide (0x8000000000000000 ≤ x.bits.toNat)

/-- The magnitude of the infinities. -/
def infiniteMagnitude : Nat := 0x7FF0000000000000

/-- Whether the bits stand for no number. -/
def isNaN (x : Double) : Bool := decide (infiniteMagnitude < x.magnitude)

/-- Whether the bits stand for a real number. -/
def isFinite (x : Double) : Bool := decide (x.magnitude < infiniteMagnitude)

/-- Whether the number is one of the two zeros. -/
def isZero (x : Double) : Bool := x.magnitude == 0

/-- The number with the given sign and magnitude. -/
def ofMagnitude (negative : Bool) (magnitude : Nat) : Double :=
  ⟨UInt64.ofNat (magnitude + if negative then 0x8000000000000000 else 0)⟩

/-- Positive zero. -/
def zero : Double := ⟨0⟩

instance : Inhabited Double := ⟨zero⟩

def neg (x : Double) : Double := ofMagnitude (!x.isNegative) x.magnitude

/-- The integer `m` of the reading `m * 2 ^ scale`, in units of `2 ^ -1074`, of a finite number. -/
def significand (x : Double) : Nat :=
  if x.magnitude < 0x10000000000000 then x.magnitude
  else 0x10000000000000 + x.magnitude % 0x10000000000000

/-- The power of two in the reading `significand * 2 ^ scale`, in units of `2 ^ -1074`. -/
def scale (x : Double) : Nat := x.magnitude / 0x10000000000000 - 1

/-- The place of the bits in the total order: negative bit patterns before positive ones, and
larger magnitudes farther out. -/
def totalKey (x : Double) : Int :=
  if x.isNegative then -(x.magnitude : Int) - 1 else x.magnitude

/-- The place of a number in the numeric order, in which the two zeros meet. -/
def numericKey (x : Double) : Int :=
  if x.isNegative then -(x.magnitude : Int) else x.magnitude

/-- The total order of all bit patterns. -/
def totalCompare (a b : Double) : Ordering := compare a.totalKey b.totalKey

/-- The numeric order, which has no place for a NaN. -/
def compare? (a b : Double) : Option Ordering :=
  if a.isNaN || b.isNaN then none else some (compare a.numericKey b.numericKey)

/-- Numeric equality: the two zeros are equal, and a NaN equals nothing. -/
def equals (a b : Double) : Bool := a.compare? b == some .eq

theorem magnitude_lt (x : Double) : x.magnitude < 0x8000000000000000 := Nat.mod_lt _ (by decide)

theorem toNat_bits (x : Double) :
    x.bits.toNat = x.magnitude + if x.isNegative then 0x8000000000000000 else 0 := by
  have h := x.bits.toNat_lt
  simp only [magnitude, isNegative, decide_eq_true_eq]
  split <;> omega

theorem totalKey_injective {a b : Double} (h : a.totalKey = b.totalKey) : a = b := by
  have ha := a.toNat_bits
  have hb := b.toNat_bits
  have hbits : a.bits.toNat = b.bits.toNat := by
    revert h
    simp only [totalKey]
    cases hna : a.isNegative <;> cases hnb : b.isNegative <;>
      simp only [hna, hnb, Bool.false_eq_true, if_true, if_false] at ha hb ⊢ <;> omega
  cases a
  cases b
  exact congrArg Double.mk (UInt64.toNat_inj.mp hbits)

theorem totalCompare_eq_eq_iff {a b : Double} : a.totalCompare b = .eq ↔ a = b := by
  constructor
  · intro h
    exact totalKey_injective (Std.LawfulEqCmp.eq_of_compare h)
  · rintro rfl
    simp [totalCompare]

theorem compare?_eq_none_iff {a b : Double} :
    a.compare? b = none ↔ a.isNaN = true ∨ b.isNaN = true := by
  simp only [compare?, Bool.or_eq_true]
  split <;> simp_all

/-- Away from the zeros the numeric order is the total order. -/
theorem totalCompare_of_compare? {a b : Double} {o : Ordering}
    (ha : ¬(a.isZero = true ∧ a.isNegative = true))
    (hb : ¬(b.isZero = true ∧ b.isNegative = true)) (h : a.compare? b = some o) :
    a.totalCompare b = o := by
  simp only [compare?] at h
  split at h
  · cases h
  · simp only [Option.some.injEq] at h
    subst h
    simp only [totalCompare, totalKey, numericKey, isZero, beq_iff_eq] at *
    cases hna : a.isNegative <;> cases hnb : b.isNegative <;>
      simp only [hna, hnb, if_true, if_false, Bool.false_eq_true, and_true, and_false,
        not_false_eq_true] at ha hb ⊢ <;>
      simp only [compare, compareOfLessAndEq] <;> repeat' split
    all_goals first | rfl | omega

end Double

end RowQuery
