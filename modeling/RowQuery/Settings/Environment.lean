import RowQuery.Double.Reading
import RowQuery.Settings.Reading

/-!
# Settings in the environment

A variable whose name starts with `QUERY_ENGINE__`, in any case, gives a setting. The rest of the name
is the path of the setting, with two underscores between the names in it. The value is read as a truth
value, an integer or a number if it has that form, and is a text otherwise.
-/

namespace RowQuery.Settings

/-- What the name of a variable starts with, in lower case. -/
def variableStart : List Char := "query_engine__".toList

/-- A name with a point for every two underscores. -/
def pointed : List Char → List Char
  | '_' :: '_' :: rest => '.' :: pointed rest
  | c :: rest => c :: pointed rest
  | [] => []

/-- The key of the setting that a variable gives, if it gives one. -/
def keyOfVariable? (name : String) : Option String :=
  let cs := (Text.lower name).toList
  if variableStart.isPrefixOf cs then some (String.ofList (pointed (cs.drop variableStart.length)))
  else none

/-- The integer that a run of digits, which may have a sign in front, denotes. -/
def intOfChars? (cs : List Char) : Option Int :=
  let (negative, ds) := match cs with
    | '-' :: ds => (true, ds)
    | '+' :: ds => (false, ds)
    | ds => (false, ds)
  if ds.isEmpty || !ds.all Char.isDigit then none
  else some (if negative then -(Text.ofDigits ds : Int) else Text.ofDigits ds)

/-- The integer of 64 bits that a text denotes. -/
def int64OfText? (s : String) : Option Int64 := (intOfChars? s.toList).bind Word.int64?

/-- The setting that the value of a variable gives. -/
def settingOfVariable (value : String) : Setting :=
  let lowered := Text.lower value
  if lowered = "true" then .bool true
  else if lowered = "false" then .bool false
  else
    match int64OfText? value with
    | some i => .int i
    | none =>
      match Double.ofText? value with
      | some x => .float x
      | none => .text value

def sourceOfVariables (vars : List (String × String)) : List (String × Setting) :=
  vars.filterMap fun v => (keyOfVariable? v.1).map (·, settingOfVariable v.2)

/-- The standard settings with those of the environment laid over them. -/
def ofEnvironment (vars : List (String × String)) : Except SettingsFault Settings :=
  ofSource (sourceOfVariables vars)

end RowQuery.Settings
