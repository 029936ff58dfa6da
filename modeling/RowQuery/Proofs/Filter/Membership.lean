import RowQuery.Condition
import RowQuery.Proofs.Value.Agreement

/-!
# Tests of membership, element by element

A test of membership looks for its elements from the other side than a test for equality does: it asks of
each element whether it equals the value in the row. That equality up to the kinds of numbers is symmetric
is what makes the two agree, in lists at any depth.

Results:
* `looselyEquals_comm`, `looselyEquals_refl`: equality up to the kinds of numbers is symmetric and
  reflexive.
* `membership_by_elements`: a test of membership is the disjunction, or the conjunction of the negations,
  of the tests for its elements.
-/

namespace RowQuery

namespace Value

mutual

theorem looselyEquals_comm (a b : Value) : looselyEquals a b = looselyEquals b a := by
  have hsame : (a == b) = (b == a) := BEq.comm
  cases a with
  | null | bool _ | string _ | dateTime _ => cases b <;> exact hsame
  | int i =>
    cases b with
    | float y => exact Double.equals_comm _ y
    | null | bool _ | int _ | string _ | dateTime _ | list _ => exact hsame
  | float x =>
    cases b with
    | int j => exact Double.equals_comm x _
    | null | bool _ | float _ | string _ | dateTime _ | list _ => exact hsame
  | list as =>
    cases b with
    | list bs => exact looselyEqualsList_comm as bs
    | null | bool _ | int _ | float _ | string _ | dateTime _ => exact hsame

theorem looselyEqualsList_comm (as bs : List Value) :
    looselyEqualsList as bs = looselyEqualsList bs as := by
  cases as with
  | nil => cases bs <;> rfl
  | cons a as =>
    cases bs with
    | nil => rfl
    | cons b bs =>
      unfold looselyEqualsList
      rw [looselyEquals_comm a b, looselyEqualsList_comm as bs]

end

mutual

/-- Every value equals itself, a NaN included: two numbers of one kind are equal when their bits are. -/
theorem looselyEquals_refl (a : Value) : looselyEquals a a = true := by
  cases a with
  | list as => exact looselyEqualsList_refl as
  | null | bool _ | int _ | float _ | string _ | dateTime _ => exact beq_self_eq_true _

theorem looselyEqualsList_refl (as : List Value) : looselyEqualsList as as = true := by
  cases as with
  | nil => rfl
  | cons a as =>
    unfold looselyEqualsList
    rw [looselyEquals_refl a, looselyEqualsList_refl as]
    rfl

end

end Value

namespace Filter

theorem memberOf_iff {actual : Value} {items : List Value} :
    memberOf actual (.list items) = true ↔ ∃ item ∈ items, actual.looselyEquals item = true := by
  show items.any (fun item => item.looselyEquals actual) = true ↔ _
  simp only [List.any_eq_true, Value.looselyEquals_comm actual]

/-- A value shares an element with a list if and only if it holds one of its elements; what is no list
does neither. -/
theorem sharesElement_iff {actual : Value} {wanted : List Value} :
    sharesElement actual (.list wanted) = true ↔ ∃ w ∈ wanted, holds actual w = true := by
  cases actual with
  | list items => exact List.any_eq_true
  | null | bool _ | int _ | float _ | string _ | dateTime _ => simp [sharesElement, holds]

section Rows

variable {ρ : Type} [Record ρ]

/-- A test of membership accepts a row if and only if the test for one of its elements does, and a test of
non-membership if and only if the tests against all of its elements do. In particular a row whose field
holds one of the values is accepted, and so is one whose field holds a list with one of them in it. -/
theorem membership_by_elements (row : ρ) (field : String) (values : List Value) :
    (((Condition.whereIn values).toFilter field).accepts row = true ↔
      ∃ v ∈ values, ((Condition.equals v).toFilter field).accepts row = true) ∧
    (((Condition.whereNotIn values).toFilter field).accepts row = true ↔
      ∀ v ∈ values, ((Condition.notEquals v).toFilter field).accepts row = true) ∧
    (((Condition.arrayContainsAny values).toFilter field).accepts row = true ↔
      ∃ v ∈ values, ((Condition.arrayContains v).toFilter field).accepts row = true) ∧
    (Record.value row field ∈ values →
      ((Condition.whereIn values).toFilter field).accepts row = true) ∧
    (∀ items, Record.value row field = .list items → (∃ v ∈ values, v ∈ items) →
      ((Condition.arrayContainsAny values).toFilter field).accepts row = true) := by
  have hin : ((Condition.whereIn values).toFilter field).accepts row = true ↔
      ∃ v ∈ values, (Record.value row field).looselyEquals v = true := memberOf_iff
  have hany : ((Condition.arrayContainsAny values).toFilter field).accepts row = true ↔
      ∃ v ∈ values, holds (Record.value row field) v = true := sharesElement_iff
  refine ⟨hin, ?_, hany, ?_, ?_⟩
  · -- Both sides are the negations of those of membership.
    show (!memberOf (Record.value row field) (.list values)) = true ↔
      ∀ v ∈ values, (!(Record.value row field).looselyEquals v) = true
    rw [Bool.not_eq_true', ← Bool.not_eq_true, memberOf_iff]
    simp
  · intro hmem
    exact hin.mpr ⟨_, hmem, Value.looselyEquals_refl _⟩
  · rintro items hitems ⟨v, hv, hmem⟩
    refine hany.mpr ⟨v, hv, ?_⟩
    rw [hitems]
    exact List.any_eq_true.mpr ⟨v, hmem, Value.looselyEquals_refl v⟩

end Rows

/-- A row that lacks the field is accepted where null is among the values, and an integer meets the
floating-point number of its size inside a list. -/
example :
    ((Condition.whereIn [.null]).toFilter "age").accepts (⟨[]⟩ : Row) = true ∧
    ((Condition.whereIn [.list [.float ⟨0x3FF0000000000000⟩]]).toFilter "marks").accepts
      (⟨[("marks", .list [.int 1])]⟩ : Row) = true := by
  decide +kernel

end Filter

end RowQuery
