import RowQuery.Json.Number

/-!
# Shapes of documents

Records and names are read from documents in the forms that writers of JSON use for them. A record is
an object that has each known name at most once, whatever else it holds, or an array of its fields in
order. A name out of a fixed set is a string, or an object with that name alone and null behind it.

Constructs are read to a limited depth: `depth` is the number of arrays and objects that may still be
opened. What stands where nobody reads it is not limited.
-/

namespace RowQuery.Json

/-- The number of arrays and objects that may be open at once. -/
def depthLimit : Nat := 127

/-- The member with a name, if there is one. There is no answer if the name is repeated. -/
def member? (name : String) (members : List (String × Json)) : Option (Option Json) :=
  match members.filter fun m => m.1 == name with
  | [] => some none
  | [m] => some (some m.2)
  | _ => none

/-- The fields of a record by name or by place; an array holds all of them. -/
def fields? (names : List String) : Json → Option (List (Option Json))
  | .object members => names.mapM (member? · members)
  | .array items => if items.length = names.length then some (items.map some) else none
  | _ => none

/-- The fields of a record whose fields may be left out, in an array from the end. -/
def leadingFields? (names : List String) : Json → Option (List (Option Json))
  | .object members => names.mapM (member? · members)
  | .array items =>
    if items.length ≤ names.length then
      some (items.map some ++ List.replicate (names.length - items.length) none)
    else none
  | _ => none

/-- A field that may be absent or null. -/
def optional? {α : Type} (read : Json → Option α) : Option Json → Option (Option α)
  | none => some none
  | some .null => some none
  | some j => (read j).map some

/-- A field that is left at its default when it is absent. -/
def defaulted? {α : Type} (default : α) (read : Json → Option α) : Option Json → Option α
  | none => some default
  | some j => read j

/-- A name out of a fixed set. -/
def name? (depth : Nat) : Json → Option String
  | .string s => some s
  | .object [(s, .null)] => if 0 < depth then some s else none
  | _ => none

mutual

/-- Whether the whole document can be read within a depth: strings denote texts and numbers are
integers or finite doubles. -/
def isReadable : Nat → Json → Bool
  | _, .null => true
  | _, .bool _ => true
  | _, .number n => n.toDouble?.isSome
  | _, .string _ => true
  | 0, .array _ => false
  | depth + 1, .array items => areItemsReadable depth items
  | 0, .object _ => false
  | depth + 1, .object members => areMembersReadable depth members
  | _, .garbled => false

/-- Whether all elements of an array can be read within a depth. -/
def areItemsReadable : Nat → List Json → Bool
  | _, [] => true
  | depth, j :: rest => isReadable depth j && areItemsReadable depth rest

/-- Whether all members of an object can be read within a depth. -/
def areMembersReadable : Nat → List (String × Json) → Bool
  | _, [] => true
  | depth, (_, j) :: rest => isReadable depth j && areMembersReadable depth rest

end

end RowQuery.Json
