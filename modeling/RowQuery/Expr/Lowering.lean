import RowQuery.Expr.Basic
import RowQuery.QueryError

/-!
# Lowering expressions to filters

A list of filters is a conjunction, so an expression can be lowered to one when it is a conjunction of
comparisons and negated comparisons. A negated comparison becomes the comparison with the inverse
operator. The first node from the left that does not fit is the error.
-/

namespace RowQuery.Expr

/-- The filters that the negation of an expression is lowered to. -/
def negatedFilters : Expr → Except QueryError (List Filter)
  | .comparison field operator value =>
    match operator.inverse? with
    | some inverse => .ok [⟨field, inverse, value⟩]
    | none => .error (.notInvertible operator.name)
  | e => .error (.negation e.kind)

/-- The filters that an expression is lowered to. -/
def toFilters : Expr → Except QueryError (List Filter)
  | .comparison field operator value => .ok [⟨field, operator, value⟩]
  | .and left right => do
    let first ← left.toFilters
    let second ← right.toFilters
    .ok (first ++ second)
  | .or _ _ => .error .disjunction
  | .not inner => inner.negatedFilters

end RowQuery.Expr
