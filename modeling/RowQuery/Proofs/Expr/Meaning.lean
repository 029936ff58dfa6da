import RowQuery.Expr.Lowering
import RowQuery.Proofs.Outcome

/-!
# What lowering an expression keeps

The filters that an expression is lowered to accept only rows of which the expression holds. They
reject a row of which it holds in one case only: a negated ordering comparison becomes the opposite
one, and both fail on values that have no order, where the negation holds.

Results:
* `evaluate_inverse`: the inverse of a test, in terms of the test.
* `acceptsAll_toFilters_iff`: the lowered filters accept the rows of which the expression holds, if
  its negated ordering comparisons compare values that have an order.
-/

namespace RowQuery

/-! ## Inverse tests -/

/-- Whether a test asks for an order of its two values. -/
def Operator.isOrdering : Operator → Bool
  | .lessThan | .lessThanOrEquals | .greaterThan | .greaterThanOrEquals => true
  | _ => false

namespace Filter

/-- Whether neither value is null and the two have an order. -/
def comparable (actual expected : Value) : Bool :=
  !actual.isNull && !expected.isNull && (actual.compare? expected).isSome

/-- Of two opposite orderings, exactly one holds of values that are comparable, and none of others. -/
theorem ordered_opposite {accept opposite : Ordering → Bool} (h : ∀ o, opposite o = !accept o)
    (actual expected : Value) :
    ordered opposite actual expected =
      (comparable actual expected && !ordered accept actual expected) := by
  unfold ordered comparable
  cases actual.compare? expected with
  | none => simp
  | some o =>
    rw [Option.any_some, Option.any_some, h o]
    cases actual.isNull <;> cases expected.isNull <;> simp

/-- The inverse of a test holds where the test does not, of an ordering among comparable values only. -/
theorem evaluate_inverse {op inverse : Operator} (h : op.inverse? = some inverse)
    (actual expected : Value) :
    evaluate inverse actual expected =
      (!evaluate op actual expected && (!op.isOrdering || comparable actual expected)) := by
  have hordering {accept opposite : Ordering → Bool} (hopposite : ∀ o, opposite o = !accept o) :
      ordered opposite actual expected =
        (!ordered accept actual expected && (!true || comparable actual expected)) := by
    rw [ordered_opposite hopposite, Bool.and_comm, Bool.not_true, Bool.false_or]
  cases op with
  | equals | notEquals | isNull | isNotNull | whereIn | whereNotIn =>
    cases h
    simp [evaluate, Operator.isOrdering]
  | lessThan | lessThanOrEquals | greaterThan | greaterThanOrEquals =>
    cases h
    exact hordering fun o => by cases o <;> rfl
  | contains | startsWith | endsWith | arrayContains | arrayContainsAny => cases h

end Filter

/-! ## Expressions -/

namespace Expr

/-- The comparisons in an expression, from left to right. -/
def comparisons : Expr → List Filter
  | .comparison field operator value => [⟨field, operator, value⟩]
  | .and left right => left.comparisons ++ right.comparisons
  | .or left right => left.comparisons ++ right.comparisons
  | .not inner => inner.comparisons

/-- The comparisons that stand under a negation. -/
def negated : Expr → List Filter
  | .comparison .. => []
  | .and left right => left.negated ++ right.negated
  | .or left right => left.negated ++ right.negated
  | .not inner => inner.comparisons

variable {ρ : Type} [Record ρ]

/-- The ordering comparisons under negations meet comparable values in a row. -/
def NegationsComparable (row : ρ) (e : Expr) : Prop :=
  ∀ f ∈ e.negated, f.operator.isOrdering = true →
    Filter.comparable (Record.value row f.field) f.value = true

theorem negationsComparable_and {row : ρ} {left right : Expr} :
    NegationsComparable row (.and left right) ↔
      NegationsComparable row left ∧ NegationsComparable row right :=
  List.forall_mem_append

omit [Record ρ] in
theorem negatedFilters_comparison {field : String} {op : Operator} {value : Value}
    {filters : List Filter} :
    (comparison field op value).negatedFilters = .ok filters ↔
      ∃ inverse, op.inverse? = some inverse ∧ filters = [⟨field, inverse, value⟩] := by
  simp only [negatedFilters]
  cases hinverse : op.inverse? with
  | none => simp
  | some inverse => simp [eq_comm]

/-- A negated comparison is lowered to one filter, its inverse. -/
theorem accepts_of_negatedFilters {inner : Expr} {filters : List Filter}
    (h : inner.negatedFilters = .ok filters) (row : ρ) :
    Filter.acceptsAll filters row = true ↔
      inner.holds row = false ∧ NegationsComparable row (.not inner) := by
  cases inner with
  | comparison field op value =>
    obtain ⟨inverse, hinverse, rfl⟩ := negatedFilters_comparison.mp h
    have hnegated : NegationsComparable row (.not (.comparison field op value)) ↔
        (op.isOrdering = true → Filter.comparable (Record.value row field) value = true) :=
      List.forall_mem_singleton
    have hone : Filter.acceptsAll [⟨field, inverse, value⟩] row =
        Filter.evaluate inverse (Record.value row field) value := Bool.and_true _
    rw [hone, Filter.evaluate_inverse hinverse, hnegated]
    show _ ↔ Filter.evaluate op (Record.value row field) value = false ∧ _
    cases Filter.evaluate op (Record.value row field) value <;> cases op.isOrdering <;> simp
  | and _ _ | or _ _ | not _ => cases h

/-- The filters of an expression accept exactly the rows of which it holds and in which its negated
ordering comparisons meet comparable values. -/
theorem acceptsAll_toFilters_iff {e : Expr} {filters : List Filter} (h : e.toFilters = .ok filters)
    (row : ρ) :
    Filter.acceptsAll filters row = true ↔ e.holds row = true ∧ NegationsComparable row e := by
  induction e generalizing filters with
  | comparison field op value =>
    cases h
    have hnone : NegationsComparable row (.comparison field op value) := List.forall_mem_nil _
    show (Filter.accepts _ row && true) = true ↔ _
    rw [Bool.and_true, and_iff_left hnone]
    rfl
  | and left right ihleft ihright =>
    obtain ⟨first, hfirst, h⟩ := Outcome.bind_eq_ok.mp h
    obtain ⟨second, hsecond, h⟩ := Outcome.bind_eq_ok.mp h
    cases h
    unfold Filter.acceptsAll at *
    rw [List.all_append, Bool.and_eq_true, ihleft hfirst, ihright hsecond, negationsComparable_and]
    show _ ↔ (left.holds row && right.holds row) = true ∧ _
    rw [Bool.and_eq_true, and_and_and_comm]
  | or left right => cases h
  | not inner =>
    show _ ↔ (!inner.holds row) = true ∧ _
    rw [Bool.not_eq_true', accepts_of_negatedFilters h row]

/-- People called Ann who are not under thirty. -/
def olderAnn : Expr :=
  .and (.not (.comparison "age" .lessThan (.int 30))) (.comparison "name" .equals (.string "Ann"))

theorem acceptsAll_toFilters_olderAnn :
    olderAnn.toFilters =
        .ok [⟨"age", .greaterThanOrEquals, .int 30⟩, ⟨"name", .equals, .string "Ann"⟩] ∧
      (Filter.acceptsAll [⟨"age", .greaterThanOrEquals, .int 30⟩, ⟨"name", .equals, .string "Ann"⟩]
          (⟨[("name", .string "Ann"), ("age", .int 41)]⟩ : Row) = true ↔
        olderAnn.holds (⟨[("name", .string "Ann"), ("age", .int 41)]⟩ : Row) = true ∧
          NegationsComparable (⟨[("name", .string "Ann"), ("age", .int 41)]⟩ : Row) olderAnn) :=
  ⟨rfl, acceptsAll_toFilters_iff rfl _⟩

/-- An Ann of unknown age is not under thirty, and the filters reject her. -/
example :
    olderAnn.holds (⟨[("name", .string "Ann")]⟩ : Row) = true ∧
      Filter.acceptsAll [⟨"age", .greaterThanOrEquals, .int 30⟩, ⟨"name", .equals, .string "Ann"⟩]
        (⟨[("name", .string "Ann")]⟩ : Row) = false := by
  decide

end Expr

end RowQuery
