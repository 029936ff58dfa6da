/-!
# Decimal digits

Numbers written in decimal, with or without leading zeros, and runs of digits read back.

Results: `ofDigits_digits` and `ofDigits_padded` read a written number back; `splitDigits` cuts a
text after its leading digits.
-/

namespace RowQuery.Text

/-- The decimal digits of a number, without leading zeros. -/
def digits (n : Nat) : List Char := Nat.toDigits 10 n

/-- The decimal digits of a number, with zeros in front up to the given width. -/
def padded (width n : Nat) : List Char :=
  List.replicate (width - (digits n).length) '0' ++ digits n

/-- The number that a run of digits denotes. -/
def ofDigits (cs : List Char) : Nat := Nat.ofDigitChars 10 cs 0

/-- The decimal digits of an integer, with a minus sign in front of a negative one. -/
def intDigits (i : Int) : List Char := if i < 0 then '-' :: digits i.natAbs else digits i.natAbs

/-- The leading digits of a text, and what follows them. -/
def splitDigits (cs : List Char) : List Char × List Char := cs.span Char.isDigit

/-- The digit `0` to `9` that a character stands for. -/
def digitValue (c : Char) : Nat := c.toNat - '0'.toNat

theorem ofDigits_digits (n : Nat) : ofDigits (digits n) = n := Nat.ofDigitChars_ten_toDigits

theorem ofDigits_padded (width n : Nat) : ofDigits (padded width n) = n := by
  simp only [ofDigits, padded, Nat.ofDigitChars_append, Nat.ofDigitChars_replicate_zero]
  exact ofDigits_digits n

end RowQuery.Text
