import RowQuery.Value.Basic
import RowQuery.Json.Shape
import RowQuery.Json.Reader
import RowQuery.Json.Writer
import RowQuery.Timestamp.Reading
import RowQuery.Timestamp.Text

/-!
# Values in JSON

A value is written as an object that names its kind and holds its content, so that a timestamp and a
text that looks like one stay apart. The two members are read in either order, and an array of the
kind and the content is read as well. The content of null may be left out.

A content that stands before its kind is held back until the kind is known, so all of it has to be
readable, and the values in it are read out of what was held back. There a kind may be given in two
more ways: as the place of its name among all kinds, at the head of an array, and as the name of a
member that holds an empty object.

Results: `tags_tag`, the place of a kind among all kinds leads back to it.
-/

namespace RowQuery.Value

/-- The name of the kind of a value in a document. -/
def tag : Value → String
  | .null => "null"
  | .bool _ => "bool"
  | .int _ => "int"
  | .float _ => "float"
  | .string _ => "string"
  | .dateTime _ => "date_time"
  | .list _ => "list"

/-- The names of all kinds in a document, in order. -/
def tags : List String := ["null", "bool", "int", "float", "string", "date_time", "list"]

/-- A document that names a kind and holds a content. -/
def tagged (tag : String) (content : Json) : Json :=
  .object [("type", .string tag), ("value", content)]

mutual

def toJson : Value → Json
  | .null => .object [("type", .string "null")]
  | .bool b => tagged "bool" (.bool b)
  | .int i => tagged "int" (.ofInt i.toInt)
  | .float x => tagged "float" (.ofDouble x)
  | .string s => tagged "string" (.string s)
  | .dateTime t => tagged "date_time" (.string t.exactText)
  | .list items => tagged "list" (.array (toJsonItems items))

def toJsonItems : List Value → List Json
  | [] => []
  | v :: rest => toJson v :: toJsonItems rest

end

/-- The value of a kind with a content; `items?` reads the elements of a list. -/
def ofContent? (items? : Json → Option (List Value)) (tag : String) : Option Json → Option Value
  | none => if tag = "null" then some .null else none
  | some content =>
    if tag = "null" then
      match content with
      | .null => some .null
      | _ => none
    else if tag = "bool" then content.toBool?.map .bool
    else if tag = "int" then content.toInt64?.map .int
    else if tag = "float" then content.toDouble?.map .float
    else if tag = "string" then content.toString?.map .string
    else if tag = "date_time" then (content.toString?.bind Timestamp.ofText?).map .dateTime
    else if tag = "list" then (items? content).map .list
    else none

/-- Whether the content stands before the kind. -/
def contentFirst (members : List (String × Json)) : Bool :=
  (members.find? fun m => m.1 == "type" || m.1 == "value").any fun m => m.1 == "value"

/-- Whether a document is read as it comes, or out of a content that was held back. -/
inductive Origin where
  | direct
  | heldBack
deriving DecidableEq

namespace Origin

/-- Where the content of an object comes from. -/
def ofContent (o : Origin) (members : List (String × Json)) : Origin :=
  if contentFirst members then .heldBack else o

/-- The kind that the member of an object gives, read within a depth. -/
def tagOfMember? : Origin → Nat → Json → Option String
  | .direct, depth, j => Json.name? depth j
  | .heldBack, _, .string tag => some tag
  | .heldBack, _, .object [(tag, .null)] => some tag
  | .heldBack, _, .object [(tag, .object [])] => some tag
  | .heldBack, _, _ => none

/-- The kind that the head of an array gives. -/
def tagOfHead? : Origin → Json → Option String
  | _, .string tag => some tag
  | .heldBack, .number n => do
    let i ← n.toInt?
    if 0 ≤ i then tags[i.toNat]? else none
  | _, _ => none

end Origin

/-- The value that a document denotes, read within a depth. -/
def read? (o : Origin) : Nat → Json → Option Value
  | depth + 1, j =>
    let items? (o : Origin) : Json → Option (List Value)
      | .array items =>
        match depth with
        | 0 => none
        | depth + 1 => items.mapM (read? o depth)
      | _ => none
    match j with
    | .object members => do
      let kind ← (← Json.member? "type" members)
      let content ← Json.member? "value" members
      let tag ← o.tagOfMember? depth kind
      if contentFirst members && !(content.all (Json.isReadable depth)) then none
      else ofContent? (items? (o.ofContent members)) tag content
    | .array [kind, content] => do
      let tag ← o.tagOfHead? kind
      ofContent? (items? o) tag (some content)
    | _ => none
  | 0, _ => none

/-- The value that a document denotes, read as it comes within a depth. -/
def ofJson? (depth : Nat) (j : Json) : Option Value := read? .direct depth j

/-- The place of the kind of a value among all kinds. -/
def tagPlace : Value → Nat
  | .null => 0
  | .bool _ => 1
  | .int _ => 2
  | .float _ => 3
  | .string _ => 4
  | .dateTime _ => 5
  | .list _ => 6

theorem tags_tag (v : Value) : tags[v.tagPlace]? = some v.tag := by
  cases v <;> rfl

end RowQuery.Value
