import RowQuery.Filter.Basic

/-!
# Conditions

A `Condition` is a test with its operand and without its field, so that it has exactly one operator
and an operand that fits it. Given a field, it is a filter.
-/

namespace RowQuery

/-- A test with its operand. -/
inductive Condition where
  | equals (value : Value)
  | notEquals (value : Value)
  | lessThan (value : Value)
  | lessThanOrEquals (value : Value)
  | greaterThan (value : Value)
  | greaterThanOrEquals (value : Value)
  /-- Selects the rows whose field is null, or those whose field is not. -/
  | isNull (expected : Bool)
  | whereIn (values : List Value)
  | whereNotIn (values : List Value)
  | contains (text : String)
  | startsWith (text : String)
  | endsWith (text : String)
  | arrayContains (element : Value)
  | arrayContainsAny (elements : List Value)
deriving DecidableEq

namespace Condition

def operator : Condition → Operator
  | .equals _ => .equals
  | .notEquals _ => .notEquals
  | .lessThan _ => .lessThan
  | .lessThanOrEquals _ => .lessThanOrEquals
  | .greaterThan _ => .greaterThan
  | .greaterThanOrEquals _ => .greaterThanOrEquals
  | .isNull true => .isNull
  | .isNull false => .isNotNull
  | .whereIn _ => .whereIn
  | .whereNotIn _ => .whereNotIn
  | .contains _ => .contains
  | .startsWith _ => .startsWith
  | .endsWith _ => .endsWith
  | .arrayContains _ => .arrayContains
  | .arrayContainsAny _ => .arrayContainsAny

def operand : Condition → Value
  | .equals v | .notEquals v | .lessThan v | .lessThanOrEquals v | .greaterThan v
  | .greaterThanOrEquals v | .arrayContains v => v
  | .isNull _ => .null
  | .whereIn vs | .whereNotIn vs | .arrayContainsAny vs => .list vs
  | .contains s | .startsWith s | .endsWith s => .string s

/-- The filter that applies a condition to a field. -/
def toFilter (c : Condition) (field : String) : Filter := ⟨field, c.operator, c.operand⟩

end Condition

end RowQuery
