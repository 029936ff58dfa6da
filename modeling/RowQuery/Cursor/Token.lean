import RowQuery.Cursor.Basic
import RowQuery.QueryError
import RowQuery.Value.Json
import RowQuery.Text.Blank

/-!
# Tokens of cursors

A cursor travels as a token: its pairs are written as a JSON array of two-element arrays, and the text
in base64. Blanks around a token are ignored. In a document a cursor is the string of its token.
-/

namespace RowQuery.Cursor

/-- The pairs of a cursor as a document. -/
def toJson (c : Cursor) : Json :=
  .array (c.pairs.map fun p => .array [.string p.1, p.2.toJson])

/-- One pair of a document, read within a depth. -/
def pairOfJson? (depth : Nat) : Json → Option (String × Value)
  | .array [.string field, value] => (Value.ofJson? (depth - 1) value).map (field, ·)
  | _ => none

/-- The pairs of a document, read within a depth. -/
def pairsOfJson? (depth : Nat) : Json → Option (List (String × Value))
  | .array items => items.mapM (pairOfJson? (depth - 1))
  | _ => none

def token (c : Cursor) : String :=
  String.ofList (Base64.encode (Utf8.encode c.toJson.chars))

def ofToken (token : String) : Except CursorFault Cursor :=
  match Base64.decode (Utf8.encode (Text.trim token.toList)) with
  | .error fault => .error (.encoding fault)
  | .ok bytes =>
    match (Json.ofBytes? bytes).bind (pairsOfJson? Json.depthLimit) with
    | some pairs => .ok (ofPairs pairs)
    | none => .error .content

/-- The cursor of a document that holds its token. -/
def ofTokenJson? (j : Json) : Option Cursor := j.toString?.bind fun s => (ofToken s).toOption

end RowQuery.Cursor
