import RowQuery.Double.Shortest
import RowQuery.Text.Numeral

/-!
# Text of binary64 numbers

A `Layout` holds what a format decides about the text of a number: when it is written without an
exponent, whether a whole number has a point, whether a positive exponent carries its sign, and which
of two equally near decimals is taken.
-/

namespace RowQuery.Double

/-- The decisions of a format. The position of the point counts from the first digit, so it is 1 for
2.5 and 0 for 0.25. -/
structure Layout where
  /-- Which of two equally near decimals is taken. -/
  tie : Tie
  /-- The first and last position of the point that is written without an exponent; without limits
  every number is. -/
  positional : Option (Int × Int)
  /-- Whether a whole number written without an exponent ends in `.0`. -/
  wholePoint : Bool
  /-- Whether a positive exponent carries a plus sign. -/
  exponentPlus : Bool

namespace Layout

/-- Whether a number with its point at `position` is written without an exponent. -/
def isPositional (l : Layout) (position : Int) : Bool :=
  match l.positional with
  | none => true
  | some (first, last) => first ≤ position && position ≤ last

/-- The digits behind the point of a whole number. -/
def wholeFraction (l : Layout) : List Char := if l.wholePoint then ['0'] else []

/-- A positive decimal with the given digits and power of ten. -/
def decimalNumeral (l : Layout) (negative : Bool) (ds : List Char) (exponent : Int) : Numeral :=
  let position := ds.length + exponent
  if !l.isPositional position then ⟨negative, ds.take 1, ds.drop 1, some (position - 1)⟩
  else if 0 ≤ exponent then
    ⟨negative, ds ++ List.replicate exponent.toNat '0', l.wholeFraction, none⟩
  else if 0 < position then ⟨negative, ds.take position.toNat, ds.drop position.toNat, none⟩
  else ⟨negative, ['0'], List.replicate (-position).toNat '0' ++ ds, none⟩

/-- A finite number as it is written. -/
def numeral (l : Layout) (x : Double) : Numeral :=
  if x.isZero then ⟨x.isNegative, ['0'], l.wholeFraction, none⟩
  else
    let d := x.shortest l.tie
    l.decimalNumeral x.isNegative (Text.digits d.digits) d.exponent

def chars (l : Layout) (x : Double) : List Char :=
  if x.isNaN then "NaN".toList
  else if x.isFinite then (l.numeral x).chars l.exponentPlus
  else if x.isNegative then "-inf".toList
  else "inf".toList

end Layout

/-- The plain text of a number never has an exponent, and a whole number has no point. -/
def plainLayout : Layout := ⟨.up, none, false, false⟩

def plainChars (x : Double) : List Char := plainLayout.chars x

end RowQuery.Double
