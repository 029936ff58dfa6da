import RowQuery.Double.Rounding
import RowQuery.Timestamp.Basic

/-!
# Values

A `Value` is what a row holds in a field, what a filter compares with, and what a cursor records:
null, a boolean, a 64-bit integer, a floating-point number, a text, a point in time, or a list of
values. Equality is exact: floating-point numbers are equal when their bits are.
-/

namespace RowQuery

/-- A value of a field. -/
inductive Value where
  | null
  | bool (b : Bool)
  | int (i : Int64)
  | float (x : Double)
  | string (s : String)
  | dateTime (t : Timestamp)
  | list (items : List Value)

namespace Value

instance : Inhabited Value := ⟨.null⟩

mutual

/-- Decides whether two values are the same. -/
def decEq : (a b : Value) → Decidable (a = b)
  | .null, .null => isTrue rfl
  | .bool a, .bool b =>
    if h : a = b then isTrue (by rw [h]) else isFalse fun e => h (Value.bool.inj e)
  | .int a, .int b =>
    if h : a = b then isTrue (by rw [h]) else isFalse fun e => h (Value.int.inj e)
  | .float a, .float b =>
    if h : a = b then isTrue (by rw [h]) else isFalse fun e => h (Value.float.inj e)
  | .string a, .string b =>
    if h : a = b then isTrue (by rw [h]) else isFalse fun e => h (Value.string.inj e)
  | .dateTime a, .dateTime b =>
    if h : a = b then isTrue (by rw [h]) else isFalse fun e => h (Value.dateTime.inj e)
  | .list a, .list b =>
    match decEqList a b with
    | isTrue h => isTrue (by rw [h])
    | isFalse h => isFalse fun e => h (Value.list.inj e)
  | .null, .bool _ | .null, .int _ | .null, .float _ | .null, .string _ | .null, .dateTime _
  | .null, .list _ => isFalse nofun
  | .bool _, .null | .bool _, .int _ | .bool _, .float _ | .bool _, .string _
  | .bool _, .dateTime _ | .bool _, .list _ => isFalse nofun
  | .int _, .null | .int _, .bool _ | .int _, .float _ | .int _, .string _ | .int _, .dateTime _
  | .int _, .list _ => isFalse nofun
  | .float _, .null | .float _, .bool _ | .float _, .int _ | .float _, .string _
  | .float _, .dateTime _ | .float _, .list _ => isFalse nofun
  | .string _, .null | .string _, .bool _ | .string _, .int _ | .string _, .float _
  | .string _, .dateTime _ | .string _, .list _ => isFalse nofun
  | .dateTime _, .null | .dateTime _, .bool _ | .dateTime _, .int _ | .dateTime _, .float _
  | .dateTime _, .string _ | .dateTime _, .list _ => isFalse nofun
  | .list _, .null | .list _, .bool _ | .list _, .int _ | .list _, .float _ | .list _, .string _
  | .list _, .dateTime _ => isFalse nofun

/-- Decides whether two lists of values are the same. -/
def decEqList : (a b : List Value) → Decidable (a = b)
  | [], [] => isTrue rfl
  | [], _ :: _ => isFalse nofun
  | _ :: _, [] => isFalse nofun
  | a :: as, b :: bs =>
    match decEq a b with
    | isFalse h => isFalse fun e => h (List.cons.inj e).1
    | isTrue h =>
      match decEqList as bs with
      | isFalse hs => isFalse fun e => hs (List.cons.inj e).2
      | isTrue hs => isTrue (by rw [h, hs])

end

instance : DecidableEq Value := decEq

/-- The name of the kind of a value. -/
def kind : Value → String
  | .null => "null"
  | .bool _ => "bool"
  | .int _ => "int"
  | .float _ => "float"
  | .string _ => "string"
  | .dateTime _ => "datetime"
  | .list _ => "list"

def isNull : Value → Bool
  | .null => true
  | _ => false

def asString? : Value → Option String
  | .string s => some s
  | _ => none

def asInt? : Value → Option Int64
  | .int i => some i
  | _ => none

/-- The number of a numeric value; an integer is rounded to the nearest double. -/
def asDouble? : Value → Option Double
  | .int i => some (Double.ofInt i.toInt)
  | .float x => some x
  | _ => none

def asBool? : Value → Option Bool
  | .bool b => some b
  | _ => none

/-- The point in time of a timestamp. -/
def asDateTime? : Value → Option Timestamp
  | .dateTime t => some t
  | _ => none

def asList? : Value → Option (List Value)
  | .list items => some items
  | _ => none

/-- The integer value of an unsigned number; one that no 64-bit integer reaches becomes the nearest
floating-point number. -/
def ofUnsigned (n : UInt64) : Value :=
  if n.toNat < 0x8000000000000000 then .int (Int64.ofNat n.toNat) else .float (Double.ofInt n.toNat)

/-- The value of an optional one; an absent value is null. -/
def ofOption (v : Option Value) : Value := v.getD .null

theorem isNull_iff {v : Value} : v.isNull = true ↔ v = .null := by
  cases v <;> simp [isNull]

end Value

end RowQuery
