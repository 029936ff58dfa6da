import RowQuery.Value.Basic
import RowQuery.Double.Text
import RowQuery.Timestamp.Text

/-!
# Text of values

The text of a value as it is shown to a reader: strings stand for themselves, timestamps have
milliseconds, and lists stand in brackets.
-/

namespace RowQuery.Value

mutual

def display : Value → List Char
  | .null => "null".toList
  | .bool b => (if b then "true" else "false").toList
  | .int i => Text.intDigits i.toInt
  | .float x => x.plainChars
  | .string s => s.toList
  | .dateTime t => t.chars .millis
  | .list items => '[' :: displayItems items ++ [']']

/-- The texts of the elements of a list, separated by commas. -/
def displayItems : List Value → List Char
  | [] => []
  | [v] => display v
  | v :: w :: rest => display v ++ ',' :: ' ' :: displayItems (w :: rest)

end

def text (v : Value) : String := String.ofList v.display

end RowQuery.Value
