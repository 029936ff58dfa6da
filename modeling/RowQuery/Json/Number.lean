import RowQuery.Json.Basic
import RowQuery.Double.Rounding
import RowQuery.Double.Text

/-!
# Floating-point numbers in JSON

A double is written with the shortest digits that read back, always with a point or an exponent; a
document has no numbers for infinities and NaNs, so they are written as null.

A number is read in two steps. Its digits are gathered in a significand of 64 bits, and once a digit
does not fit, the digits after it only move the point. The significand is rounded to a double, and
the double is multiplied or divided by a power of ten, which rounds again. Powers beyond `10 ^ 308`
are divided by in several steps; a result beyond the finite doubles is no number.
-/

namespace RowQuery

/-- Numbers from `1e-5` to `1e16` are written without an exponent, whole numbers end in `.0`, and an
even last digit is preferred. -/
def Json.numberLayout : Double.Layout := ⟨.even, some (-4, 16), true, true⟩

namespace Numeral

/-- The significand and power of ten that digits in front of the point give. -/
def gatherWhole : Nat → List Char → Nat × Nat
  | significand, [] => (significand, 0)
  | significand, d :: ds =>
    let next := significand * 10 + Text.digitValue d
    if next < UInt64.size then gatherWhole next ds else (significand, ds.length + 1)

/-- The significand and the number of digits that digits behind the point add to it. -/
def gatherFraction : Nat → List Char → Nat × Nat
  | significand, [] => (significand, 0)
  | significand, d :: ds =>
    let next := significand * 10 + Text.digitValue d
    if next < UInt64.size then
      let (result, added) := gatherFraction next ds
      (result, added + 1)
    else (significand, 0)

/-- The double nearest to a power of ten. -/
def power (n : Nat) : Double := Double.nearest false (Double.tenPow n) 1

/-- A double divided by `10 ^ n`, in steps of at most `10 ^ 308`. -/
def divideByPower (x : Double) (n : Nat) : Double :=
  if n ≤ 308 then x.div (power n)
  else if x.isZero then x
  else divideByPower (x.div (power 308)) (n - 308)
termination_by n

/-- The double that a significand and a power of ten give, if it is finite. -/
def scaled? (significand : Nat) (exponent : Int) : Option Double :=
  let x := Double.ofInt significand
  if exponent < 0 then some (divideByPower x exponent.natAbs)
  else if exponent ≤ 308 then
    let y := x.mul (power exponent.toNat)
    if y.isFinite then some y else none
  else if x.isZero then some x
  else none

/-- The double that a number denotes, if it is finite. -/
def toDouble? (n : Numeral) : Option Double :=
  let (whole, dropped) := gatherWhole 0 n.whole
  let (significand, added) := gatherFraction whole n.fraction
  (scaled? significand (n.exponent.getD 0 + dropped - added)).map fun x =>
    if n.negative then x.neg else x

end Numeral

namespace Json

def ofDouble (x : Double) : Json := if x.isFinite then .number (numberLayout.numeral x) else .null

/-- The finite double of a document that holds a number. -/
def toDouble? : Json → Option Double
  | .number n => n.toDouble?
  | _ => none

end Json

end RowQuery
