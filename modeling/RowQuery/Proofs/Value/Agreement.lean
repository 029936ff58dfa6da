import RowQuery.Proofs.Expr.Meaning
import RowQuery.Proofs.Value.TotalOrder

/-!
# Comparing, sorting and equality agree

Values are compared by filters, sorted by pages and tested for equality by three definitions of their own.
They agree on all values that contain no zero with a minus sign: filters compare that zero as equal to the
other one, while it is sorted before it. A NaN has no order but is sorted, and equal to itself.

Results:
* `sortCompare_of_compare?`: values that have an order are sorted in it.
* `sortCompare_eq_eq_iff`: values tie if and only if they are equal up to the kinds of numbers.
* `comparisons_agree`: both, and what filters accept in terms of the order in which rows are sorted.
-/

namespace RowQuery

namespace Double

/-- Zero with a minus sign. -/
def negativeZero : Double := ⟨0x8000000000000000⟩

theorem eq_negativeZero {x : Double} (h : x.isZero = true ∧ x.isNegative = true) :
    x = negativeZero := by
  refine totalKey_injective ?_
  have hmagnitude : x.magnitude = 0 := beq_iff_eq.mp h.1
  rw [totalKey, if_pos h.2, hmagnitude]
  rfl

section NumericOrder

variable {x y : Double} (hx : x ≠ negativeZero) (hy : y ≠ negativeZero)
include hx hy

theorem totalCompare_of_numeric {o : Ordering} (h : x.compare? y = some o) : x.totalCompare y = o :=
  totalCompare_of_compare? (fun hzero => hx (eq_negativeZero hzero))
    (fun hzero => hy (eq_negativeZero hzero)) h

theorem equals_iff (hnan : x.isNaN = false) : x.equals y = true ↔ x.totalCompare y = .eq := by
  constructor
  · intro h
    exact totalCompare_of_numeric hx hy (beq_iff_eq.mp h)
  · intro h
    rw [totalCompare_eq_eq_iff] at h
    subst h
    unfold equals compare?
    rw [hnan]
    simp

end NumericOrder

theorem isNaN_ofInt (i : Int) : (ofInt i).isNaN = false := by
  have hle : (ofInt i).magnitude ≤ infiniteMagnitude := by
    rw [ofInt, magnitude_nearest]
    exact nearestMagnitude_le _ _
  exact decide_eq_false (Nat.not_lt.mpr hle)

/-- An integer is not rounded to the zero with a minus sign: negative ones stay below minus one. -/
theorem ofInt_ne_negativeZero (i : Int) : ofInt i ≠ negativeZero := by
  intro h
  have hkey : (ofInt i).totalKey = -1 := by
    rw [h]
    rfl
  rcases Int.lt_or_le i 0 with hi | hi
  · have hmono := totalKey_ofInt_mono (show i ≤ -1 by omega)
    have hminusOne : (ofInt (-1)).totalKey < -1 := by decide +kernel
    omega
  · have hmono := totalKey_ofInt_mono hi
    have hzero : (ofInt 0).totalKey = 0 := by decide +kernel
    omega

theorem equals_comm (x y : Double) : x.equals y = y.equals x := by
  unfold equals compare?
  rw [Bool.or_comm]
  split
  · rfl
  · rw [Bool.eq_iff_iff, beq_iff_eq, beq_iff_eq, Option.some.injEq, Option.some.injEq,
      Int.compare_eq_eq, Int.compare_eq_eq]
    exact eq_comm

end Double

/-- What an ordering test accepts of the order of its two values. -/
def Operator.orderingTest? : Operator → Option (Ordering → Bool)
  | .lessThan => some Ordering.isLT
  | .lessThanOrEquals => some Ordering.isLE
  | .greaterThan => some Ordering.isGT
  | .greaterThanOrEquals => some Ordering.isGE
  | _ => none

namespace Value

/-- Whether a zero with a minus sign is in a value. -/
def HasNegativeZero (v : Value) : Prop := .float Double.negativeZero ∈ v.scalars

instance (v : Value) : Decidable v.HasNegativeZero :=
  inferInstanceAs (Decidable (_ ∈ v.scalars))

theorem ne_negativeZero {x : Double} (h : ¬(float x).HasNegativeZero) : x ≠ Double.negativeZero := by
  rintro rfl
  exact h (List.mem_singleton_self _)

/-! ## Values that have an order -/

mutual

/-- Values that have an order are sorted in it. -/
theorem sortCompare_of_compare? {a b : Value} {o : Ordering} (ha : ¬a.HasNegativeZero)
    (hb : ¬b.HasNegativeZero) (h : compare? a b = some o) : sortCompare a b = o := by
  cases a with
  | null =>
    cases b with
    | null => exact Option.some.inj h
    | bool _ | int _ | float _ | string _ | dateTime _ | list _ => cases h
  | bool x =>
    cases b with
    | bool y => exact Option.some.inj h
    | null | int _ | float _ | string _ | dateTime _ | list _ => cases h
  | int i =>
    cases b with
    | int j => exact Option.some.inj h
    | float y =>
      exact Double.totalCompare_of_numeric (Double.ofInt_ne_negativeZero _) (ne_negativeZero hb) h
    | null | bool _ | string _ | dateTime _ | list _ => cases h
  | float x =>
    cases b with
    | int j =>
      exact Double.totalCompare_of_numeric (ne_negativeZero ha) (Double.ofInt_ne_negativeZero _) h
    | float y => exact Double.totalCompare_of_numeric (ne_negativeZero ha) (ne_negativeZero hb) h
    | null | bool _ | string _ | dateTime _ | list _ => cases h
  | string s =>
    cases b with
    | string t => exact Option.some.inj h
    | null | bool _ | int _ | float _ | dateTime _ | list _ => cases h
  | dateTime s =>
    cases b with
    | dateTime t => exact Option.some.inj h
    | null | bool _ | int _ | float _ | string _ | list _ => cases h
  | list as =>
    cases b with
    | list bs => exact sortCompareList_of_compareList? ha hb h
    | null | bool _ | int _ | float _ | string _ | dateTime _ => cases h

theorem sortCompareList_of_compareList? {as bs : List Value} {o : Ordering}
    (ha : .float Double.negativeZero ∉ scalarsOf as) (hb : .float Double.negativeZero ∉ scalarsOf bs)
    (h : compareList? as bs = some o) : sortCompareList as bs = o := by
  cases as with
  | nil => cases bs <;> exact Option.some.inj h
  | cons a as =>
    cases bs with
    | nil => exact Option.some.inj h
    | cons b bs =>
      obtain ⟨ha, has⟩ := not_or.mp (mt List.mem_append.mpr ha)
      obtain ⟨hb, hbs⟩ := not_or.mp (mt List.mem_append.mpr hb)
      unfold compareList? at h
      unfold sortCompareList
      cases hab : compare? a b with
      | none =>
        rw [hab] at h
        cases h
      | some p =>
        rw [sortCompare_of_compare? ha hb hab]
        rw [hab] at h
        -- The first elements that differ decide both comparisons.
        cases p with
        | lt | gt => exact Option.some.inj h
        | eq => exact sortCompareList_of_compareList? has hbs h

end

/-! ## Values that tie -/

theorem looselyEquals_of_rank_ne {a b : Value} (h : a.rank ≠ b.rank) : looselyEquals a b = false := by
  have hne : (a == b) = false := by
    rw [beq_eq_false_iff_ne]
    rintro rfl
    exact h rfl
  cases a <;> cases b <;> first | exact hne | exact absurd rfl h

mutual

/-- Values tie if and only if they are equal up to the kinds of numbers. -/
theorem sortCompare_eq_eq_iff {a b : Value} (ha : ¬a.HasNegativeZero) (hb : ¬b.HasNegativeZero) :
    sortCompare a b = .eq ↔ looselyEquals a b = true := by
  by_cases hrank : a.rank = b.rank
  · cases a with
    | null =>
      cases b with
      | null => exact iff_of_true rfl rfl
      | _ => cases hrank
    | bool x =>
      cases b with
      | bool y =>
        show compare x y = .eq ↔ (bool x == bool y) = true
        rw [Std.LawfulEqOrd.compare_eq_iff_eq, beq_iff_eq, bool.injEq]
      | _ => cases hrank
    | int i =>
      cases b with
      | int j =>
        show compare i.toInt j.toInt = .eq ↔ (int i == int j) = true
        rw [Std.LawfulEqOrd.compare_eq_iff_eq, beq_iff_eq, int.injEq, Int64.toInt_inj]
      | float y =>
        exact (Double.equals_iff (Double.ofInt_ne_negativeZero _) (ne_negativeZero hb)
          (Double.isNaN_ofInt _)).symm
      | _ => cases hrank
    | float x =>
      cases b with
      | int j =>
        show x.totalCompare (Double.ofInt j.toInt) = .eq ↔ x.equals (Double.ofInt j.toInt) = true
        rw [Double.equals_comm, Double.equals_iff (Double.ofInt_ne_negativeZero _)
          (ne_negativeZero ha) (Double.isNaN_ofInt _), Double.totalCompare_eq_eq_iff,
          Double.totalCompare_eq_eq_iff]
        exact eq_comm
      | float y =>
        show x.totalCompare y = .eq ↔ (float x == float y) = true
        rw [Double.totalCompare_eq_eq_iff, beq_iff_eq, float.injEq]
      | _ => cases hrank
    | string s =>
      cases b with
      | string t =>
        show compare s t = .eq ↔ (string s == string t) = true
        rw [Std.LawfulEqOrd.compare_eq_iff_eq, beq_iff_eq, string.injEq]
      | _ => cases hrank
    | dateTime s =>
      cases b with
      | dateTime t =>
        show s.compare t = .eq ↔ (dateTime s == dateTime t) = true
        rw [Timestamp.compare_eq_eq_iff, beq_iff_eq, dateTime.injEq]
      | _ => cases hrank
    | list as =>
      cases b with
      | list bs => exact sortCompareList_eq_eq_iff ha hb
      | _ => cases hrank
  · rw [sortCompare_of_rank_ne hrank, looselyEquals_of_rank_ne hrank]
    exact iff_of_false (mt Nat.compare_eq_eq.mp hrank) Bool.false_ne_true

theorem sortCompareList_eq_eq_iff {as bs : List Value}
    (ha : .float Double.negativeZero ∉ scalarsOf as) (hb : .float Double.negativeZero ∉ scalarsOf bs) :
    sortCompareList as bs = .eq ↔ looselyEqualsList as bs = true := by
  cases as with
  | nil =>
    cases bs with
    | nil => exact iff_of_true rfl rfl
    | cons b bs => exact iff_of_false nofun nofun
  | cons a as =>
    cases bs with
    | nil => exact iff_of_false nofun nofun
    | cons b bs =>
      obtain ⟨ha, has⟩ := not_or.mp (mt List.mem_append.mpr ha)
      obtain ⟨hb, hbs⟩ := not_or.mp (mt List.mem_append.mpr hb)
      unfold sortCompareList looselyEqualsList
      rw [Ordering.then_eq_eq, Bool.and_eq_true, sortCompare_eq_eq_iff ha hb,
        sortCompareList_eq_eq_iff has hbs]

end

/-! ## Filters -/

theorem evaluate_of_orderingTest? {op : Operator} {accept : Ordering → Bool}
    (h : op.orderingTest? = some accept) (a b : Value) :
    Filter.evaluate op a b = Filter.ordered accept a b := by
  cases op with
  | lessThan | lessThanOrEquals | greaterThan | greaterThanOrEquals =>
    cases h
    rfl
  | equals | notEquals | isNull | isNotNull | whereIn | whereNotIn | contains | startsWith | endsWith
  | arrayContains | arrayContainsAny => cases h

/-- An ordering test accepts the comparable values that are sorted in an accepted order. -/
theorem ordered_iff {a b : Value} (ha : ¬a.HasNegativeZero) (hb : ¬b.HasNegativeZero)
    (accept : Ordering → Bool) :
    Filter.ordered accept a b = true ↔
      Filter.comparable a b = true ∧ accept (sortCompare a b) = true := by
  unfold Filter.ordered Filter.comparable
  cases h : compare? a b with
  | none => simp
  | some o =>
    rw [sortCompare_of_compare? ha hb h]
    simp

/-- On values without a zero that has a minus sign, values that have an order are sorted in it, and values
tie if and only if they are equal up to the kinds of numbers. So a filter for equality accepts the values
that tie with its operand, one for inequality the others, and an ordering test those of the comparable
values that are sorted as it says. -/
theorem comparisons_agree {a b : Value} (ha : ¬a.HasNegativeZero) (hb : ¬b.HasNegativeZero) :
    (∀ o, a.compare? b = some o → a.sortCompare b = o) ∧
    (a.sortCompare b = .eq ↔ a.looselyEquals b = true) ∧
    (Filter.evaluate .equals a b = true ↔ a.sortCompare b = .eq) ∧
    (Filter.evaluate .notEquals a b = true ↔ a.sortCompare b ≠ .eq) ∧
    ∀ op accept, op.orderingTest? = some accept →
      (Filter.evaluate op a b = true ↔
        Filter.comparable a b = true ∧ accept (a.sortCompare b) = true) := by
  have htie := sortCompare_eq_eq_iff ha hb
  refine ⟨fun o => sortCompare_of_compare? ha hb, htie, htie.symm, ?_, ?_⟩
  · show (!a.looselyEquals b) = true ↔ _
    rw [Ne, htie, Bool.not_eq_true', Bool.not_eq_true]
  · intro op accept hop
    rw [evaluate_of_orderingTest? hop]
    exact ordered_iff ha hb accept

theorem comparisons_agree_rounded :
    ¬(list [.int 9007199254740993, .string "b"]).HasNegativeZero ∧
    ¬(list [.float ⟨0x4340000000000000⟩, .string "a"]).HasNegativeZero ∧
    sortCompare (.list [.int 9007199254740993, .string "b"])
      (.list [.float ⟨0x4340000000000000⟩, .string "a"]) = .gt := by
  have ha : ¬(list [.int 9007199254740993, .string "b"]).HasNegativeZero := by decide +kernel
  have hb : ¬(list [.float ⟨0x4340000000000000⟩, .string "a"]).HasNegativeZero := by decide +kernel
  obtain ⟨hsorted, _⟩ := comparisons_agree ha hb
  exact ⟨ha, hb, hsorted .gt (by decide +kernel)⟩

/-- The zeros are equal to a filter that compares them, but do not tie. -/
example : compare? (.float Double.negativeZero) (.int 0) = some .eq ∧
    sortCompare (.float Double.negativeZero) (.int 0) = .lt := by
  decide +kernel

end Value

end RowQuery
