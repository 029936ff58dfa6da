import RowQuery.Filter.Basic
import RowQuery.Value.Text

/-!
# Expressions

An expression is built from comparisons of fields by conjunction, disjunction and negation. `holds` is
its meaning: a comparison holds of a row when the filter of the same parts accepts it.
-/

namespace RowQuery

/-- A boolean combination of comparisons. -/
inductive Expr where
  | comparison (field : String) (operator : Operator) (value : Value)
  | and (left right : Expr)
  | or (left right : Expr)
  | not (inner : Expr)
deriving DecidableEq

namespace Expr

/-- The name of the kind of an expression. -/
def kind : Expr → String
  | .comparison .. => "comparison"
  | .and .. => "AND"
  | .or .. => "OR"
  | .not _ => "NOT"

/-- Whether an expression holds of a row. -/
def holds {ρ : Type} [Record ρ] (row : ρ) : Expr → Bool
  | .comparison field operator value => Filter.accepts ⟨field, operator, value⟩ row
  | .and left right => left.holds row && right.holds row
  | .or left right => left.holds row || right.holds row
  | .not inner => !inner.holds row

/-- The text of an expression; the operand of a null test is left out. -/
def text : Expr → String
  | .comparison field operator value =>
    if operator.requiresValue then field ++ " " ++ operator.name ++ " " ++ value.text
    else field ++ " " ++ operator.name
  | .and left right => "(" ++ left.text ++ " AND " ++ right.text ++ ")"
  | .or left right => "(" ++ left.text ++ " OR " ++ right.text ++ ")"
  | .not inner => "NOT " ++ inner.text

end Expr

end RowQuery
