import RowQuery.Timestamp.Basic
import RowQuery.Text.Digits

/-!
# Text of timestamps

A timestamp is written as `YYYY-MM-DDTHH:MM:SS`, a fraction of the second and `Z`. Years outside 0 to
9999 carry a sign, and a leap second is written as second 60. A fraction has three digits, cut, or
the least of 0, 3, 6 and 9 digits that is exact.
-/

namespace RowQuery.Timestamp

/-- How much of the second's fraction is written. -/
inductive Fraction where
  | millis
  | exact
deriving DecidableEq

/-- The day on which the point lies. -/
def date (t : Timestamp) : Calendar.Date :=
  Calendar.Date.ofDays (t.seconds / 86400 + Calendar.epochDay)

def secondOfDay (t : Timestamp) : Nat := (t.seconds % 86400).toNat

/-- A year: four digits, with a sign where four digits do not suffice. -/
def yearChars (year : Int) : List Char :=
  if 0 ≤ year ∧ year ≤ 9999 then Text.padded 4 year.toNat
  else (if year < 0 then '-' else '+') :: Text.padded 4 year.natAbs

/-- The fraction of a second, given in nanoseconds. -/
def Fraction.chars : Fraction → Nat → List Char
  | .millis, n => '.' :: Text.padded 3 (n / 1000000)
  | .exact, n =>
    if n = 0 then []
    else if n % 1000000 = 0 then '.' :: Text.padded 3 (n / 1000000)
    else if n % 1000 = 0 then '.' :: Text.padded 6 (n / 1000)
    else '.' :: Text.padded 9 n

/-- The text of a point in time. -/
def chars (f : Fraction) (t : Timestamp) : List Char :=
  let d := t.date
  let s := t.secondOfDay
  yearChars d.year ++ '-' :: Text.padded 2 d.month ++ '-' :: Text.padded 2 d.day
    ++ 'T' :: Text.padded 2 (s / 3600) ++ ':' :: Text.padded 2 (s / 60 % 60)
    ++ ':' :: Text.padded 2 (s % 60 + t.nanos / 1000000000)
    ++ f.chars (t.nanos % 1000000000) ++ ['Z']

/-- The text of a point in time with milliseconds. -/
def millisText (t : Timestamp) : String := String.ofList (t.chars .millis)

/-- The exact text of a point in time. -/
def exactText (t : Timestamp) : String := String.ofList (t.chars .exact)

end RowQuery.Timestamp
