import RowQuery.Double.Rounding
import RowQuery.Text.Digits
import RowQuery.Text.LowerCase

/-!
# Reading binary64 numbers

A decimal text is read as the double nearest to the number it denotes. The text may have a sign, a
point with digits on at least one side, and an exponent; `inf`, `infinity` and `nan` are read in any
case.
-/

namespace RowQuery.Double

def infinity (negative : Bool) : Double := ofMagnitude negative infiniteMagnitude

/-- A NaN without a payload, with the given sign. -/
def nan (negative : Bool) : Double := ofMagnitude negative (infiniteMagnitude + 0x8000000000000)

/-- The double nearest to `digits * 10 ^ exponent`. Numbers far beyond the range of finite doubles
are settled without computing the power. -/
def ofDecimal (negative : Bool) (digits : Nat) (exponent : Int) : Double :=
  if digits = 0 then ofMagnitude negative 0
  else if 400 < exponent then infinity negative
  else if exponent < -400 - (Nat.log2 digits + 1 : Nat) then ofMagnitude negative 0
  else nearest negative (digits * tenPow exponent.toNat) (tenPow (-exponent).toNat)

/-- The exponent that follows the digits of a number; nothing may follow it. -/
def exponentOf? : List Char → Option Int
  | [] => some 0
  | c :: rest =>
    if c = 'e' ∨ c = 'E' then
      let (negative, ds) :=
        match rest with
        | '-' :: ds => (true, ds)
        | '+' :: ds => (false, ds)
        | ds => (false, ds)
      if ds.isEmpty || !ds.all Char.isDigit then none
      else some (if negative then -(Text.ofDigits ds : Int) else Text.ofDigits ds)
    else none

/-- An unsigned number: digits, a point and an exponent, or the name of a special number. -/
def unsignedOf? (negative : Bool) (cs : List Char) : Option Double :=
  let name := String.ofList (cs.map Char.toLower)
  if name = "inf" ∨ name = "infinity" then some (infinity negative)
  else if name = "nan" then some (nan negative)
  else
    let (whole, rest) := Text.splitDigits cs
    let (fraction, rest) :=
      match rest with
      | '.' :: rest => Text.splitDigits rest
      | rest => ([], rest)
    if whole.isEmpty && fraction.isEmpty then none
    else
      (exponentOf? rest).map fun e =>
        ofDecimal negative (Text.ofDigits (whole ++ fraction)) (e - fraction.length)

def ofText? (s : String) : Option Double :=
  match s.toList with
  | '-' :: cs => unsignedOf? true cs
  | '+' :: cs => unsignedOf? false cs
  | cs => unsignedOf? false cs

end RowQuery.Double
