import Mathlib.Data.List.Basic
import RowQuery.Proofs.Sql.ConditionText

/-!
# Filtering by statement

A database keeps a row if all conditions of a statement are true of it. A condition may also be unknown:
a comparison with null is, and so is membership that only an unknown comparison could decide. Texts are
ordered by code point.

The filters keep the same rows where a column has the kind of the operand, and where it is only tested
for null or for membership in an empty list.

Results:
* `decides_ofFilter`: the condition of a filter is true of a row or false, as the filter decides.
* `conditions_true_iff_accepts`: filters and the conditions read from their text keep the same rows.
-/

namespace RowQuery

/-- Whether an operand is an integer or a text, and a value is of the same kind. -/
def Value.hasKindOf (v operand : Value) : Bool := operand.isIntegerOrText && v.kind == operand.kind

/-- Whether a filter asks for nothing but null of a value, or for a comparison with operands of its
kind. -/
def Filter.fitsColumn (f : Filter) (v : Value) : Bool :=
  match f.operator with
  | .isNull | .isNotNull => true
  | .equals | .notEquals => f.value.isNull || v.hasKindOf f.value
  | .lessThan | .lessThanOrEquals | .greaterThan | .greaterThanOrEquals => v.hasKindOf f.value
  | .whereIn | .whereNotIn =>
    match f.value with
    | .list items => items.all v.hasKindOf
    | _ => false
  | .contains | .startsWith | .endsWith | .arrayContains | .arrayContainsAny => false

namespace Sql

/-! ## The truth of conditions -/

/-- An outcome, or its opposite. -/
def negateIf (negated outcome : Bool) : Bool := bif negated then !outcome else outcome

/-- The order of two integers or two texts; with null and among other kinds it is unknown. -/
def compareValues? : Value → Value → Option Ordering
  | .int a, .int b => some (compare a.toInt b.toInt)
  | .string a, .string b => some (compare a b)
  | _, _ => none

def Comparison.accepts : Comparison → Ordering → Bool
  | .eq => Ordering.isEq
  | .ne => Ordering.isNe
  | .lt => Ordering.isLT
  | .le => Ordering.isLE
  | .gt => Ordering.isGT
  | .ge => Ordering.isGE

/-- Whether some condition is true; unknown if none is and one is unknown. -/
def anyTruth (truths : List (Option Bool)) : Option Bool :=
  if some true ∈ truths then some true else if none ∈ truths then none else some false

/-- Whether all conditions are true; unknown if none is false and one is unknown. -/
def allTruth (truths : List (Option Bool)) : Option Bool :=
  if some false ∈ truths then some false else if none ∈ truths then none else some true

section Rows

variable {ρ : Type} [Record ρ]

def Operand.value (row : ρ) : Operand → Value
  | .column name => Record.value row name
  | .constant v => v

/-- Whether a test is true of a row, unless that is unknown. -/
def Test.truth (row : ρ) : Test → Option Bool
  | .null operand negated => some (negateIf negated (operand.value row).isNull)
  | .compare left comparison right =>
    (compareValues? (left.value row) (right.value row)).map comparison.accepts
  | .member operand negated items =>
    (anyTruth (items.map fun item =>
      (compareValues? (operand.value row) (item.value row)).map Ordering.isEq)).map (negateIf negated)

theorem allTruth_eq_some_true_iff (truths : List (Option Bool)) :
    allTruth truths = some true ↔ ∀ t ∈ truths, t = some true := by
  unfold allTruth
  constructor
  · intro h t ht
    split at h
    · cases h
    · next hfalse =>
      split at h
      · cases h
      · next hnone =>
        cases t with
        | none => exact absurd ht hnone
        | some b =>
          cases b with
          | false => exact absurd ht hfalse
          | true => rfl
  · intro h
    have hfalse : some false ∉ truths := fun hmem => by cases h _ hmem
    have hnone : none ∉ truths := fun hmem => by cases h _ hmem
    rw [if_neg hfalse, if_neg hnone]

theorem anyTruth_map_some (outcomes : List Bool) :
    anyTruth (outcomes.map some) = some (outcomes.any id) := by
  have hnone : none ∉ outcomes.map some := by simp
  unfold anyTruth
  cases hany : outcomes.any id with
  | true =>
    have htrue : some true ∈ outcomes.map some := by simpa using hany
    rw [if_pos htrue]
  | false =>
    have htrue : some true ∉ outcomes.map some := by simpa using hany
    rw [if_neg htrue, if_neg hnone]

/-! ## Comparisons inside a kind -/

/-- Conditions and filters compare two values alike, and neither value is null. -/
structure ComparesAs (v w : Value) (o : Ordering) : Prop where
  condition : compareValues? v w = some o
  filter : v.compare? w = some o
  left_not_null : v.isNull = false
  right_not_null : w.isNull = false
  equal : v.looselyEquals w = o.isEq
  equal_swap : w.looselyEquals v = o.isEq

theorem kind_of_hasKindOf {v w : Value} (h : v.hasKindOf w = true) :
    w.isIntegerOrText = true ∧ v.kind = w.kind := by
  unfold Value.hasKindOf at h
  rw [Bool.and_eq_true, beq_iff_eq] at h
  exact h

theorem exists_comparesAs {v w : Value} (h : v.hasKindOf w = true) : ∃ o, ComparesAs v w o := by
  obtain ⟨hplain, hkind⟩ := kind_of_hasKindOf h
  cases w with
  | int j =>
    obtain ⟨i, rfl⟩ := Value.exists_int_of_kind hkind
    have hequal : (compare i.toInt j.toInt).isEq = true ↔ i = j := by
      rw [Ordering.isEq_iff_eq_eq, Std.LawfulEqOrd.compare_eq_iff_eq, Int64.toInt_inj]
    refine ⟨_, rfl, rfl, rfl, rfl, ?_, ?_⟩
    · show (Value.int i == Value.int j) = _
      rw [Bool.eq_iff_iff, hequal, beq_iff_eq, Value.int.injEq]
    · show (Value.int j == Value.int i) = _
      rw [Bool.eq_iff_iff, hequal, beq_iff_eq, Value.int.injEq, eq_comm]
  | string t =>
    obtain ⟨s, rfl⟩ := Value.exists_string_of_kind hkind
    have hequal : (compare s t).isEq = true ↔ s = t := by
      rw [Ordering.isEq_iff_eq_eq, Std.LawfulEqOrd.compare_eq_iff_eq]
    refine ⟨_, rfl, rfl, rfl, rfl, ?_, ?_⟩
    · show (Value.string s == Value.string t) = _
      rw [Bool.eq_iff_iff, hequal, beq_iff_eq, Value.string.injEq]
    · show (Value.string t == Value.string s) = _
      rw [Bool.eq_iff_iff, hequal, beq_iff_eq, Value.string.injEq, eq_comm]
  | null | bool _ | float _ | dateTime _ | list _ => cases hplain

theorem evaluate_of_hasKindOf {v w : Value} (h : v.hasKindOf w = true) (c : Comparison) :
    (compareValues? v w).map c.accepts = some (Filter.evaluate c.operator v w) := by
  obtain ⟨o, ho⟩ := exists_comparesAs h
  have hordered (accept : Ordering → Bool) : Filter.ordered accept v w = accept o := by
    rw [Filter.ordered, ho.left_not_null, ho.right_not_null, ho.filter]
    rfl
  rw [ho.condition, Option.map_some]
  cases c with
  | eq => exact congrArg some ho.equal.symm
  | ne =>
    show some o.isNe = some (!v.looselyEquals w)
    rw [ho.equal]
    cases o <;> rfl
  | lt | le | gt | ge => exact congrArg some (hordered _).symm

namespace Predicate

/-- A predicate that is read as a test of known outcome. -/
def Decides (r : Renderer) (row : ρ) (p : Predicate) (outcome : Bool) : Prop :=
  p.IsPlain r ∧ ∃ t, p.test? = some t ∧ t.truth row = some outcome

variable {r : Renderer} {row : ρ} {column : String}

theorem decides_null (hname : r.writesName column = true) (negated : Bool) :
    (Predicate.null column negated).Decides r row (negateIf negated (Record.value row column).isNull) :=
  ⟨hname, _, rfl, rfl⟩

theorem decides_constant (truth : Bool) : (Predicate.constant truth).Decides r row truth := by
  cases truth <;> exact ⟨trivial, _, rfl, rfl⟩

theorem decides_compare (hname : r.writesName column = true) {v : Value}
    (h : (Record.value row column).hasKindOf v = true) (c : Comparison) :
    (Predicate.compare column c v).Decides r row
      (Filter.evaluate c.operator (Record.value row column) v) :=
  ⟨⟨hname, (kind_of_hasKindOf h).1⟩, _, rfl, evaluate_of_hasKindOf h c⟩

theorem decides_equality (hname : r.writesName column = true) {v : Value}
    (h : v.isNull = true ∨ (Record.value row column).hasKindOf v = true) (negated : Bool) :
    (equality column negated v).Decides r row
      (negateIf negated ((Record.value row column).looselyEquals v)) := by
  unfold equality
  split
  · next hnull =>
    have hequal : (Record.value row column).looselyEquals v = (Record.value row column).isNull := by
      cases v with
      | null => cases Record.value row column <;> rfl
      | bool _ | int _ | float _ | string _ | dateTime _ | list _ => cases hnull
    rw [hequal]
    exact decides_null hname negated
  · next hnull =>
    have hkind := h.resolve_left hnull
    cases negated with
    | false => exact decides_compare hname hkind .eq
    | true => exact decides_compare hname hkind .ne

theorem decides_membership (hname : r.writesName column = true) {items : List Value}
    (h : ∀ v ∈ items, (Record.value row column).hasKindOf v = true) (negated : Bool) :
    (membership column negated items).Decides r row
      (negateIf negated (Filter.memberOf (Record.value row column) (.list items))) := by
  have hitem (v : Value) (hv : v ∈ items) :
      (compareValues? (Record.value row column) v).map Ordering.isEq =
        some (v.looselyEquals (Record.value row column)) := by
    obtain ⟨o, ho⟩ := exists_comparesAs (h v hv)
    rw [ho.condition, ho.equal_swap]
    rfl
  cases items with
  | nil =>
    cases negated with
    | false => exact decides_constant false
    | true => exact decides_constant true
  | cons w rest =>
    have hplain (v : Value) (hv : v ∈ w :: rest) : v.isIntegerOrText = true :=
      (kind_of_hasKindOf (h v hv)).1
    refine ⟨⟨hname, List.cons_ne_nil w rest, hplain⟩, _, rfl, ?_⟩
    have houtcomes : ((w :: rest).map Operand.constant).map (fun item =>
        (compareValues? (Record.value row column) (item.value row)).map Ordering.isEq) =
          ((w :: rest).map fun v => v.looselyEquals (Record.value row column)).map some := by
      rw [List.map_map, List.map_map]
      exact List.map_congr_left hitem
    show (anyTruth (((w :: rest).map Operand.constant).map fun item =>
      (compareValues? (Record.value row column) (item.value row)).map Ordering.isEq)).map _ = _
    rw [houtcomes, anyTruth_map_some, List.any_map]
    rfl

/-- The condition of a filter is true of a row or false, as the filter decides. -/
theorem decides_ofFilter {f : Filter} (hname : r.writesName f.field = true)
    (h : f.fitsColumn (Record.value row f.field) = true) :
    (ofFilter f).Decides r row (f.accepts row) := by
  obtain ⟨field, op, value⟩ := f
  unfold Filter.fitsColumn at h
  cases op with
  | isNull => exact decides_null hname false
  | isNotNull => exact decides_null hname true
  | equals => exact decides_equality hname (Bool.or_eq_true_iff.mp h) false
  | notEquals => exact decides_equality hname (Bool.or_eq_true_iff.mp h) true
  | lessThan => exact decides_compare hname h .lt
  | lessThanOrEquals => exact decides_compare hname h .le
  | greaterThan => exact decides_compare hname h .gt
  | greaterThanOrEquals => exact decides_compare hname h .ge
  | whereIn =>
    cases value with
    | list items => exact decides_membership hname (List.all_eq_true.mp h) false
    | null | bool _ | int _ | float _ | string _ | dateTime _ => cases h
  | whereNotIn =>
    cases value with
    | list items => exact decides_membership hname (List.all_eq_true.mp h) true
    | null | bool _ | int _ | float _ | string _ | dateTime _ => cases h
  | contains | startsWith | endsWith | arrayContains | arrayContainsAny => cases h

end Predicate

end Rows

/-- The condition of each filter, read from its text, is true of a row if and only if the filter accepts
the row, and the conditions of all of them are if and only if all do. -/
theorem conditions_true_iff_accepts {ρ : Type} [Record ρ] {row : ρ} {r : Renderer}
    (hr : r.dialect = .standard) {filters : List Filter}
    (h : ∀ f ∈ filters, r.writesName f.field = true ∧
      f.fitsColumn (Record.value row f.field) = true) :
    (∀ f ∈ filters, ∃ t, Test.ofText? ((Predicate.ofFilter f).chars r) = some t ∧
        (t.truth row = some true ↔ f.accepts row = true)) ∧
      ∃ ts, conditions? (Predicate.conjunctionChars r (filters.map Predicate.ofFilter)) = some ts ∧
        (allTruth (ts.map (Test.truth row)) = some true ↔ Filter.acceptsAll filters row = true) := by
  have hdecides (f : Filter) (hf : f ∈ filters) : (Predicate.ofFilter f).Decides r row (f.accepts row) :=
    Predicate.decides_ofFilter (h f hf).1 (h f hf).2
  refine ⟨?_, ?_⟩
  · intro f hf
    obtain ⟨hplain, t, ht, htruth⟩ := hdecides f hf
    refine ⟨t, (Test.ofText?_chars hr hplain).trans ht, ?_⟩
    rw [htruth, Option.some.injEq]
  · have hplain : ∀ p ∈ filters.map Predicate.ofFilter, p.IsPlain r := by
      intro p hp
      obtain ⟨f, hf, rfl⟩ := List.mem_map.mp hp
      exact (hdecides f hf).1
    refine ⟨_, conditions?_conjunctionChars hr hplain, ?_⟩
    have houtcomes : ((filters.map Predicate.ofFilter).filterMap Predicate.test?).map (Test.truth row) =
        filters.map fun f => some (f.accepts row) := by
      rw [List.filterMap_map, List.map_filterMap, ← List.filterMap_eq_map']
      refine List.filterMap_congr fun f hf => ?_
      obtain ⟨_, t, ht, htruth⟩ := hdecides f hf
      show ((Predicate.ofFilter f).test?).map _ = _
      rw [ht, Option.map_some, htruth]
    rw [houtcomes, allTruth_eq_some_true_iff, List.forall_mem_map, Filter.acceptsAll, List.all_eq_true]
    simp only [Option.some.injEq]

/-- Filters of each kind, and a row that they all accept. -/
def typedFilters : List Filter :=
  [⟨"age", .greaterThanOrEquals, .int 18⟩, ⟨"name", .notEquals, .string "O'Brien"⟩,
    ⟨"left", .equals, .null⟩, ⟨"city", .whereIn, .list [.string "Rome", .string "Bonn"]⟩,
    ⟨"tags", .whereNotIn, .list []⟩]

def typedRow : Row :=
  ⟨[("age", .int 30), ("name", .string "Ann"), ("city", .string "Bonn"), ("tags", .list [.int 1])]⟩

theorem conditions_true_of_typedRow :
    (∀ f ∈ typedFilters, Renderer.writesName ⟨.standard, false⟩ f.field = true ∧
      f.fitsColumn (Record.value typedRow f.field) = true) ∧
    ∃ ts, conditions? (Predicate.conjunctionChars ⟨.standard, false⟩
        (typedFilters.map Predicate.ofFilter)) = some ts ∧
      allTruth (ts.map (Test.truth typedRow)) = some true := by
  have htyped : ∀ f ∈ typedFilters, Renderer.writesName ⟨.standard, false⟩ f.field = true ∧
      f.fitsColumn (Record.value typedRow f.field) = true := by decide
  obtain ⟨_, ts, hts, htruth⟩ := conditions_true_iff_accepts (r := ⟨.standard, false⟩) rfl htyped
  exact ⟨htyped, ts, hts, htruth.mpr (by decide)⟩

end Sql

end RowQuery
