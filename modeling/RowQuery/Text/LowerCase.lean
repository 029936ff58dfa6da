/-!
# Lower case of names

Names of settings and directions are compared without regard to case. All of them are written in
ASCII, so only the characters whose lower case is an ASCII letter matter: the capitals `A` to `Z`
and the Kelvin sign, whose lower case is `k`.
-/

namespace RowQuery.Text

/-- The Kelvin sign, the one character outside ASCII that has a single ASCII letter as lower case. -/
def kelvinSign : Char := Char.ofNat 0x212A

/-- The lower case of a character as far as ASCII letters are concerned. -/
def lowerChar (c : Char) : Char := if c = kelvinSign then 'k' else c.toLower

/-- The lower case of a text as far as ASCII letters are concerned. -/
def lower (s : String) : String := String.ofList (s.toList.map lowerChar)

end RowQuery.Text
