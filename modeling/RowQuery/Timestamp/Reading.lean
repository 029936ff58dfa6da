import RowQuery.Timestamp.Basic
import RowQuery.Text.Blank
import RowQuery.Text.Digits

/-!
# Reading timestamps

A timestamp is read in a relaxed form of RFC 3339. The date and the time are separated by `T`, `t` or
a blank; numbers may lack their leading zeros, and blanks may stand in front of numbers, dashes and
colons. A year of more than four digits needs a sign. The offset is `Z`, `UTC` in any case, or a sign,
two digits of hours and two of minutes, and the point is moved to universal time by it. Second 60 is
a leap second. Digits of the fraction beyond the ninth are ignored.

A `Reader` takes what it can use from the front of a text and returns the rest.
-/

namespace RowQuery.Timestamp

/-- Reads the front of a text. -/
abbrev Reader (α : Type) := List Char → Option (α × List Char)

/-- A number of at least one and at most `width` digits. -/
def readNumber (width : Nat) : Reader Nat := fun cs =>
  let ds := (cs.take width).takeWhile Char.isDigit
  if ds.isEmpty then none else some (Text.ofDigits ds, cs.drop ds.length)

/-- A number of at most two digits up to `last`, with blanks in front. -/
def readField (last : Nat) : Reader Nat := fun cs => do
  let (n, rest) ← readNumber 2 (Text.trimStart cs)
  if n ≤ last then some (n, rest) else none

/-- A year: up to four digits, or a sign and any number of digits. -/
def readYear : Reader Int := fun cs =>
  match Text.trimStart cs with
  | '-' :: rest => (readNumber rest.length rest).map fun (n, rest) => (-(n : Int), rest)
  | '+' :: rest => (readNumber rest.length rest).map fun (n, rest) => ((n : Int), rest)
  | rest => (readNumber 4 rest).map fun (n, rest) => ((n : Int), rest)

def readChar (c : Char) : List Char → Option (List Char)
  | [] => none
  | d :: rest => if d = c then some rest else none

def readDate : Reader Calendar.Date := fun cs => do
  let (year, rest) ← readYear cs
  let rest ← readChar '-' (Text.trimStart rest)
  let (month, rest) ← readField 12 rest
  let rest ← readChar '-' (Text.trimStart rest)
  let (day, rest) ← readField 31 rest
  some (⟨year, month, day⟩, rest)

/-- The fraction of a second in nanoseconds: nothing, or a point and at least one digit. -/
def readFraction : Reader Nat
  | '.' :: cs =>
    let ds := (cs.take 9).takeWhile Char.isDigit
    if ds.isEmpty then none
    else
      some
        (Text.ofDigits (ds ++ List.replicate (9 - ds.length) '0'),
          (cs.drop ds.length).dropWhile Char.isDigit)
  | cs => some (0, cs)

/-- Whether a character may stand between the hours and the minutes of an offset. -/
def isOffsetSeparator (c : Char) : Bool := c = ':' || Text.isBlank c

def readTwoDigits : Reader Nat
  | a :: b :: rest =>
    if a.isDigit && b.isDigit then some (Text.ofDigits [a, b], rest) else none
  | _ => none

/-- The hours and minutes of an offset, in seconds. -/
def readHoursMinutes : Reader Nat := fun cs => do
  let (hours, rest) ← readTwoDigits cs
  let (minutes, rest) ← readTwoDigits (rest.dropWhile isOffsetSeparator)
  if minutes < 60 then some (hours * 3600 + minutes * 60, rest) else none

/-- The offset from universal time, in seconds. The minus sign may be a hyphen or U+2212. -/
def readOffset : Reader Int := fun cs =>
  match cs with
  | c :: rest =>
    if (cs.take 3).map Char.toLower = ['u', 't', 'c'] then some (0, cs.drop 3)
    else if c = 'Z' ∨ c = 'z' then some (0, rest)
    else if c = '+' then (readHoursMinutes rest).map fun (n, rest) => ((n : Int), rest)
    else if c = '-' ∨ c = Char.ofNat 0x2212 then
      (readHoursMinutes rest).map fun (n, rest) => (-(n : Int), rest)
    else none
  | [] => none

/-- The point in time at a minute and second of a day, given its offset; second 60 of a minute is the
leap second that follows second 59. The years of the local time are bounded like those of the point. -/
def ofLocal? (date : Calendar.Date) (minute second nanos : Nat) (offset : Int) :
    Option Timestamp := do
  if date.isValid && offset.natAbs < 86400 then
    let day := (date.toDays - Calendar.epochDay) * 86400
    let leap := second = 60
    let here ← ofParts? (day + minute * 60 + (if leap then 59 else second : Nat))
      (nanos + if leap then 1000000000 else 0)
    ofParts? (here.seconds - offset) here.nanos
  else none

/-- Reads a whole text as a point in time. -/
def read? (cs : List Char) : Option Timestamp := do
  let (date, rest) ← readDate cs
  let rest ←
    match rest with
    | c :: rest => if c = 'T' ∨ c = 't' ∨ c = ' ' then some rest else none
    | [] => none
  let (hour, rest) ← readField 23 rest
  let rest ← readChar ':' (Text.trimStart rest)
  let (minute, rest) ← readField 59 rest
  let rest ← readChar ':' (Text.trimStart rest)
  let (second, rest) ← readField 60 rest
  let (nanos, rest) ← readFraction rest
  let (offset, rest) ← readOffset (Text.trimStart rest)
  if (Text.trimStart rest).isEmpty then
    ofLocal? date (hour * 60 + minute) second nanos offset
  else none

/-- The point in time that a text denotes. -/
def ofText? (s : String) : Option Timestamp := read? s.toList

end RowQuery.Timestamp
