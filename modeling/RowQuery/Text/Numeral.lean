import RowQuery.Text.Digits

/-!
# Numbers as they are written

A `Numeral` is a decimal number as it is written: a sign, digits, digits behind a point, and an
exponent. How the exponent's own sign is spelled is left to the format.

Results: `toInt?_ofInt` reads a written integer back.
-/

namespace RowQuery

/-- A number as it is written; without a point there are no digits behind one. -/
structure Numeral where
  negative : Bool
  whole : List Char
  fraction : List Char
  exponent : Option Int
deriving DecidableEq

namespace Numeral

def ofInt (i : Int) : Numeral := ⟨decide (i < 0), Text.digits i.natAbs, [], none⟩

/-- The characters of an exponent; `plus` says whether a positive one carries its sign. -/
def exponentChars (plus : Bool) : Option Int → List Char
  | none => []
  | some e =>
    'e' :: (if e < 0 then ['-'] else if plus then ['+'] else []) ++ Text.digits e.natAbs

def chars (plus : Bool) (n : Numeral) : List Char :=
  (if n.negative then ['-'] else []) ++ n.whole
    ++ (if n.fraction.isEmpty then [] else '.' :: n.fraction) ++ exponentChars plus n.exponent

/-- The integer that a number denotes. A number with a point or an exponent denotes none, and neither
does a zero with a minus sign. -/
def toInt? (n : Numeral) : Option Int :=
  let size := Text.ofDigits n.whole
  if n.fraction.isEmpty && n.exponent.isNone && !(n.negative && size = 0) then
    some (if n.negative then -(size : Int) else size)
  else none

theorem toInt?_ofInt (i : Int) : (ofInt i).toInt? = some i := by
  simp only [toInt?, ofInt, Text.ofDigits_digits]
  by_cases h : i < 0
  · have hne : ¬i.natAbs = 0 := by omega
    have hval : -(i.natAbs : Int) = i := by omega
    simp only [List.isEmpty_nil, Option.isNone_none, h, decide_true, hne, decide_false,
      Bool.and_false, Bool.not_false, Bool.and_self, if_true, hval]
  · have hval : (i.natAbs : Int) = i := by omega
    simp only [List.isEmpty_nil, Option.isNone_none, h, decide_false, Bool.false_and,
      Bool.not_false, Bool.and_self, if_true, Bool.false_eq_true, if_false, hval]

end Numeral

end RowQuery
