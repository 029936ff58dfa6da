import RowQuery.Cursor.Token
import RowQuery.Page.Basic

/-!
# Pages in JSON

A page is written as an object of its items and its data. Cursors are written as tokens, and absent
cursors and counts are left out.
-/

namespace RowQuery

namespace PageInfo

def fieldNames : List String :=
  ["hasNextPage", "hasPreviousPage", "startCursor", "endCursor", "totalCount"]

/-- The data of a page as a document. -/
def toJson (info : PageInfo) : Json :=
  let cursor (name : String) (c : Option Cursor) : List (String × Json) :=
    c.toList.map fun c => (name, .string c.token)
  .object
    ([("hasNextPage", .bool info.hasNext), ("hasPreviousPage", .bool info.hasPrevious)]
      ++ cursor "startCursor" info.startCursor ++ cursor "endCursor" info.endCursor
      ++ info.totalCount.toList.map fun n => ("totalCount", Json.ofInt (n : Nat)))

/-- The data of a page that a document denotes. -/
def ofJson? (j : Json) : Option PageInfo := do
  match ← Json.fields? fieldNames j with
  | [some next, some previous, start, stop, total] =>
    some ⟨← next.toBool?, ← previous.toBool?, ← Json.optional? Cursor.ofTokenJson? start,
      ← Json.optional? Cursor.ofTokenJson? stop, ← Json.optional? Json.toCount? total⟩
  | _ => none

end PageInfo

namespace Page

/-- A page of values as a document. -/
def toJson (p : Page Value) : Json :=
  .object [("items", .array (p.items.map Value.toJson)), ("pageInfo", p.info.toJson)]

/-- The page of values that a document denotes, read within a depth. -/
def ofJson? (depth : Nat) (j : Json) : Option (Page Value) := do
  match ← Json.fields? ["items", "pageInfo"] j with
  | [some items, some info] =>
    some ⟨← (← items.toArray?).mapM (Value.ofJson? (depth - 2)), ← PageInfo.ofJson? info⟩
  | _ => none

end Page

end RowQuery
