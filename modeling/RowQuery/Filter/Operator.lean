/-!
# Filter operators

The fifteen tests that a filter can apply, with their names and inverses.

Results: `ofName?_name` reads every name back; `inverse?_inverse?` says that inverting is undone by
inverting again.
-/

namespace RowQuery

/-- A test of a field's value against an operand. -/
inductive Operator where
  | equals
  | notEquals
  | lessThan
  | lessThanOrEquals
  | greaterThan
  | greaterThanOrEquals
  | isNull
  | isNotNull
  | whereIn
  | whereNotIn
  | contains
  | startsWith
  | endsWith
  | arrayContains
  | arrayContainsAny
deriving DecidableEq

namespace Operator

def all : List Operator :=
  [.equals, .notEquals, .lessThan, .lessThanOrEquals, .greaterThan, .greaterThanOrEquals, .isNull,
    .isNotNull, .whereIn, .whereNotIn, .contains, .startsWith, .endsWith, .arrayContains,
    .arrayContainsAny]

def name : Operator → String
  | .equals => "equals"
  | .notEquals => "notEquals"
  | .lessThan => "lessThan"
  | .lessThanOrEquals => "lessThanOrEquals"
  | .greaterThan => "greaterThan"
  | .greaterThanOrEquals => "greaterThanOrEquals"
  | .isNull => "isNull"
  | .isNotNull => "isNotNull"
  | .whereIn => "whereIn"
  | .whereNotIn => "whereNotIn"
  | .contains => "contains"
  | .startsWith => "startsWith"
  | .endsWith => "endsWith"
  | .arrayContains => "arrayContains"
  | .arrayContainsAny => "arrayContainsAny"

def ofName? (name : String) : Option Operator := all.find? fun op => op.name == name

/-- The place of an operator among all of them. -/
def index (op : Operator) : Nat := all.idxOf op

/-- The operator that holds where this one does not. Tests of texts and of list elements have none. -/
def inverse? : Operator → Option Operator
  | .equals => some .notEquals
  | .notEquals => some .equals
  | .isNull => some .isNotNull
  | .isNotNull => some .isNull
  | .greaterThan => some .lessThanOrEquals
  | .lessThanOrEquals => some .greaterThan
  | .lessThan => some .greaterThanOrEquals
  | .greaterThanOrEquals => some .lessThan
  | .whereIn => some .whereNotIn
  | .whereNotIn => some .whereIn
  | .contains | .startsWith | .endsWith | .arrayContains | .arrayContainsAny => none

def requiresValue : Operator → Bool
  | .isNull | .isNotNull => false
  | _ => true

/-- Whether the operand is a list of values. -/
def takesList : Operator → Bool
  | .whereIn | .whereNotIn | .arrayContainsAny => true
  | _ => false

theorem ofName?_name (op : Operator) : ofName? op.name = some op := by
  cases op <;> decide

theorem inverse?_inverse? {op inv : Operator} (h : op.inverse? = some inv) :
    inv.inverse? = some op := by
  cases op <;> cases h <;> rfl

end Operator

end RowQuery
