import RowQuery.Text.Numeral
import RowQuery.Word

/-!
# JSON documents

A `Json` is a document as it is written: numbers keep their digits, and the members of an object keep
their order, repeated names included.
-/

namespace RowQuery

/-- A document. -/
inductive Json where
  | null
  | bool (b : Bool)
  | number (n : Numeral)
  | string (s : String)
  | array (items : List Json)
  | object (members : List (String × Json))
  /-- A string that is written correctly and denotes no text, such as half of a surrogate pair, or an
  object with such a name. It may stand where nobody reads it. -/
  | garbled

namespace Json

instance : Inhabited Json := ⟨.null⟩

def ofInt (i : Int) : Json := .number (.ofInt i)

/-- The truth value of a document that holds one. -/
def toBool? : Json → Option Bool
  | .bool b => some b
  | _ => none

/-- The text of a document that holds one. -/
def toString? : Json → Option String
  | .string s => some s
  | _ => none

/-- The integer of a document that holds one. -/
def toInt? : Json → Option Int
  | .number n => n.toInt?
  | _ => none

def toArray? : Json → Option (List Json)
  | .array items => some items
  | _ => none

/-- The integer of a document that holds one of 64 bits. -/
def toInt64? (j : Json) : Option Int64 := j.toInt?.bind Word.int64?

/-- The count of a document that holds one: a natural number of 64 bits. -/
def toCount? (j : Json) : Option Nat := j.toInt?.bind Word.count?

end Json

end RowQuery
