import RowQuery.Double.Basic

/-!
# The shortest decimal that reads back

The reals that round to a finite double form an interval around it. Among the multiples of powers of
ten in that interval the shortest decimal is a multiple of the largest power that has one there, and
of two such multiples the nearer to the double. Where both are equally near, the rule of the format
that asks decides.

All comparisons are exact: values are counted in quarters of `2 ^ -1074`, so the borders of the
interval, which lie half way to a neighbour, are integers as well.
-/

namespace RowQuery.Double

/-- A positive decimal number, `digits * 10 ^ exponent`. -/
structure Decimal where
  digits : Nat
  exponent : Int
deriving DecidableEq

/-- Which of two equally near decimals is taken. -/
inductive Tie where
  | even
  | up
deriving DecidableEq

/-- The distance from a double to the lower border of its interval, in quarters of its own unit: the
neighbour below a power of two is only half as far away. -/
def gapBelow (x : Double) : Nat := if x.significand = 0x10000000000000 ∧ 0 < x.scale then 1 else 2

/-- The multiple of `10 ^ k` in the interval of `x` that is nearest to `x`, as a count of that
power, if there is one. -/
def multiple? (tie : Tie) (x : Double) (k : Int) : Option Nat :=
  let den := tenPow k.toNat <<< 1076
  let quarters (n : Nat) : Nat := (n * tenPow (-k).toNat) <<< x.scale
  let low := quarters (4 * x.significand - x.gapBelow)
  let mid := quarters (4 * x.significand)
  let high := quarters (4 * x.significand + 2)
  let inside (d : Nat) : Bool :=
    if x.significand % 2 = 0 then low ≤ d * den && d * den ≤ high
    else low < d * den && d * den < high
  let d := mid / den
  match inside d, inside (d + 1) with
  | false, false => none
  | true, false => some d
  | false, true => some (d + 1)
  | true, true =>
    match compare (2 * (mid % den)) den with
    | .lt => some d
    | .gt => some (d + 1)
    | .eq =>
      match tie with
      | .even => some (d + d % 2)
      | .up => some (d + 1)

/-- The first power of ten, going down from `k`, that has a multiple in the interval of `x`. -/
def coarsest (tie : Tie) (x : Double) : Nat → Int → Decimal
  | 0, k => ⟨0, k⟩
  | steps + 1, k =>
    match multiple? tie x k with
    | some d => ⟨d, k⟩
    | none => coarsest tie x steps (k - 1)

/-- A power of ten above the whole interval of `x`. -/
def powerAbove (x : Double) : Int :=
  ((Nat.log2 x.significand + x.scale : Nat) - 1073 : Int) * 30103 / 100000 + 1

/-- The shortest decimal that reads back as the finite double `x`, which is not zero, up to its sign.
Seventeen digits always suffice, so two dozen powers from the one above are enough. -/
def shortest (tie : Tie) (x : Double) : Decimal := coarsest tie x 24 x.powerAbove

end RowQuery.Double
