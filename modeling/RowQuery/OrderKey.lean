import RowQuery.Value.Json
import RowQuery.Text.LowerCase

/-!
# Orderings

An ordering is a list of keys, each a field and a direction; earlier keys decide first.
-/

namespace RowQuery

/-- The direction of a key. -/
inductive Direction where
  | asc
  | desc
deriving DecidableEq

namespace Direction

instance : Inhabited Direction := ⟨.asc⟩

def name : Direction → String
  | .asc => "asc"
  | .desc => "desc"

/-- The direction that a text names, in short or in full and in any case. -/
def ofText? (s : String) : Option Direction :=
  let s := Text.lower s
  if s = "asc" ∨ s = "ascending" then some .asc
  else if s = "desc" ∨ s = "descending" then some .desc
  else none

def reverse : Direction → Direction
  | .asc => .desc
  | .desc => .asc

/-- Whether larger values come first. -/
def isDescending : Direction → Bool
  | .asc => false
  | .desc => true

/-- The direction that a document names in short. -/
def ofJson? (depth : Nat) (j : Json) : Option Direction :=
  (Json.name? depth j).bind fun s => [Direction.asc, .desc].find? fun d => d.name == s

def toJson (d : Direction) : Json := .string d.name

end Direction

/-- A field to order by. -/
structure OrderKey where
  field : String
  descending : Bool
deriving DecidableEq

namespace OrderKey

/-- The key of a field in a direction. -/
def of (field : String) (direction : Direction) : OrderKey := ⟨field, direction.isDescending⟩

/-- The key of a field with smaller values first. -/
def asc (field : String) : OrderKey := of field .asc

/-- The key of a field with larger values first. -/
def desc (field : String) : OrderKey := of field .desc

def direction (k : OrderKey) : Direction := if k.descending then .desc else .asc

def reversed (k : OrderKey) : OrderKey := { k with descending := !k.descending }

/-- Whether an ordering has a key of a field. -/
def sortsBy (order : List OrderKey) (field : String) : Bool := order.any fun k => k.field == field

def toJson (k : OrderKey) : Json :=
  .object [("field", .string k.field), ("descending", .bool k.descending)]

def ofJson? (j : Json) : Option OrderKey := do
  match ← Json.fields? ["field", "descending"] j with
  | [some field, some descending] => some ⟨← field.toString?, ← descending.toBool?⟩
  | _ => none

end OrderKey

end RowQuery
