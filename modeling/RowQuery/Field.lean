import RowQuery.Expr.Basic

/-!
# Declared fields

A declared field has a name and a kind, and the kind decides which comparisons can be built from it:
any field can be tested for equality, null and membership; comparable fields and text fields also for
order; text fields for parts of the text; and list fields for their elements.

Fields are told apart by kind and name alone; the type of their values plays no part.
-/

namespace RowQuery

/-- The kind of a declared field. -/
inductive FieldKind where
  | plain
  | comparable
  | text
  | list
deriving DecidableEq

namespace FieldKind

def name : FieldKind → String
  | .plain => "Field"
  | .comparable => "ComparableField"
  | .text => "StringField"
  | .list => "ListField"

end FieldKind

/-- A comparison with its operand, as a declared field offers it. -/
inductive FieldTest where
  | equals (value : Value)
  | notEquals (value : Value)
  | isNull
  | isNotNull
  | isIn (values : List Value)
  | isNotIn (values : List Value)
  | greaterThan (value : Value)
  | greaterThanOrEqualTo (value : Value)
  | lessThan (value : Value)
  | lessThanOrEqualTo (value : Value)
  | contains (text : String)
  | startsWith (text : String)
  | endsWith (text : String)
  | arrayContains (element : Value)
  | arrayContainsAny (elements : List Value)
deriving DecidableEq

namespace FieldTest

/-- Whether fields of a kind offer the comparison. -/
def isOffered (kind : FieldKind) : FieldTest → Bool
  | .equals _ | .notEquals _ | .isNull | .isNotNull | .isIn _ | .isNotIn _ => true
  | .greaterThan _ | .greaterThanOrEqualTo _ | .lessThan _ | .lessThanOrEqualTo _ =>
    kind = .comparable || kind = .text
  | .contains _ | .startsWith _ | .endsWith _ => kind = .text
  | .arrayContains _ | .arrayContainsAny _ => kind = .list

end FieldTest

/-- A declared field. -/
structure Field where
  kind : FieldKind
  name : String
deriving DecidableEq

namespace Field

def test (f : Field) : FieldTest → Expr
  | .equals v => .comparison f.name .equals v
  | .notEquals v => .comparison f.name .notEquals v
  | .isNull => .comparison f.name .isNull .null
  | .isNotNull => .comparison f.name .isNotNull .null
  | .isIn vs => .comparison f.name .whereIn (.list vs)
  | .isNotIn vs => .comparison f.name .whereNotIn (.list vs)
  | .greaterThan v => .comparison f.name .greaterThan v
  | .greaterThanOrEqualTo v => .comparison f.name .greaterThanOrEquals v
  | .lessThan v => .comparison f.name .lessThan v
  | .lessThanOrEqualTo v => .comparison f.name .lessThanOrEquals v
  | .contains s => .comparison f.name .contains (.string s)
  | .startsWith s => .comparison f.name .startsWith (.string s)
  | .endsWith s => .comparison f.name .endsWith (.string s)
  | .arrayContains v => .comparison f.name .arrayContains v
  | .arrayContainsAny vs => .comparison f.name .arrayContainsAny (.list vs)

end Field

end RowQuery
