/-!
# The proleptic Gregorian calendar

Days are counted from 1 January of the year 0, and years run in both directions. A year divisible by
four is a leap year, unless it is divisible by a hundred and not by four hundred.

Results: `daysBeforeYear_yearOfDay_le` and `lt_daysBeforeYear_yearOfDay_succ` place every day in its
year.
-/

namespace RowQuery.Calendar

/-- Whether a year has a 29 February. -/
def isLeap (year : Int) : Bool := year % 4 = 0 && (year % 100 ≠ 0 || year % 400 = 0)

/-- The days from 1 January of the year 0 to 1 January of the given year. -/
def daysBeforeYear (year : Int) : Int :=
  365 * year + (year + 3) / 4 - (year + 99) / 100 + (year + 399) / 400

/-- The days of a month of a leap or common year; months outside 1 to 12 have none. -/
def daysInMonth (leap : Bool) : Nat → Nat
  | 2 => if leap then 29 else 28
  | 4 | 6 | 9 | 11 => 30
  | 1 | 3 | 5 | 7 | 8 | 10 | 12 => 31
  | _ => 0

/-- The days of a year before the first day of a month. -/
def daysBeforeMonth (leap : Bool) : Nat → Nat
  | 0 | 1 => 0
  | month + 2 => daysBeforeMonth leap (month + 1) + daysInMonth leap (month + 1)

/-- A date of the calendar. -/
structure Date where
  year : Int
  month : Nat
  day : Nat
deriving DecidableEq

/-- Whether the month has such a day. -/
def Date.isValid (d : Date) : Bool :=
  1 ≤ d.day && d.day ≤ daysInMonth (isLeap d.year) d.month

/-- The days from 1 January of the year 0 to a date. -/
def Date.toDays (d : Date) : Int :=
  daysBeforeYear d.year + daysBeforeMonth (isLeap d.year) d.month + d.day - 1

/-- The year in which a day lies: the average length of a year gives it up to one. -/
def yearOfDay (days : Int) : Int :=
  let guess := days * 400 / 146097
  if days < daysBeforeYear guess then guess - 1
  else if daysBeforeYear (guess + 1) ≤ days then guess + 1
  else guess

/-- The month and day of the month at a distance from 1 January, looking from `month` on. -/
def monthOfDay (leap : Bool) : Nat → Nat → Nat → Nat × Nat
  | 0, month, rest => (month, rest + 1)
  | months + 1, month, rest =>
    if rest < daysInMonth leap month then (month, rest + 1)
    else monthOfDay leap months (month + 1) (rest - daysInMonth leap month)

def Date.ofDays (days : Int) : Date :=
  let year := yearOfDay days
  let (month, day) := monthOfDay (isLeap year) 11 1 (days - daysBeforeYear year).toNat
  ⟨year, month, day⟩

/-- The day of 1 January 1970. -/
def epochDay : Int := 719528

theorem daysBeforeYear_yearOfDay_le (days : Int) : daysBeforeYear (yearOfDay days) ≤ days := by
  simp only [yearOfDay]
  split
  · simp only [daysBeforeYear] at *
    omega
  · split <;> simp only [daysBeforeYear] at * <;> omega

theorem lt_daysBeforeYear_yearOfDay_succ (days : Int) :
    days < daysBeforeYear (yearOfDay days + 1) := by
  simp only [yearOfDay]
  split
  · rw [Int.sub_add_cancel]
    assumption
  · split
    · simp only [daysBeforeYear] at *
      omega
    · rename_i h
      exact Int.not_le.mp h

end RowQuery.Calendar
