import Mathlib.Order.Defs.LinearOrder
import RowQuery.Proofs.Comparison
import RowQuery.Proofs.Double.Rounding
import RowQuery.Proofs.Value.SortOrder

/-!
# Where the sort order is total

Two integers are compared exactly, an integer and a floating-point number after the integer is rounded.
So a floating-point number to which different integers are rounded ties with all of them, though they
do not tie with each other, and the sort order is not transitive on the three. That is the only way in
which it fails: on values in which no floating-point number stands for two of the integers, it is total
up to ties.

Results:
* `sortCompare_eq_then`: without such a number the comparisons along a chain decide the comparison of
  its ends.
* `not_transitiveOn_rounded`: with such a number the order is not transitive.
* `sortCompare_total`: the order of all values, the order of chains without such numbers, and how
  integers meet floating-point numbers.
-/

namespace RowQuery

/-! ## Chains of comparisons -/

/-- In a transitive order the steps of a chain without a step down decide the comparison of its ends. -/
theorem compare_eq_then {α : Type} {cmp : α → α → Ordering} [Std.TransCmp cmp] {a b c : α}
    (hab : (cmp a b).isLE) (hbc : (cmp b c).isLE) : cmp a c = (cmp a b).then (cmp b c) := by
  cases h : cmp a b with
  | lt => exact Std.TransCmp.lt_of_lt_of_isLE h hbc
  | eq => exact Std.TransCmp.congr_left h
  | gt =>
    rw [h] at hab
    cases hab

/-- Of two steps that do not go down the order does not matter. -/
theorem then_exchange (o : Ordering) {p q : Ordering} (hp : p.isLE) (hq : q.isLE) (r : Ordering) :
    (o.then p).then (q.then r) = (o.then q).then (p.then r) := by
  cases o with
  | lt | gt => rfl
  | eq =>
    cases p with
    | lt =>
      cases q with
      | lt | eq => rfl
      | gt => cases hq
    | eq => rfl
    | gt => cases hp

theorem then_lt_then (o : Ordering) {q : Ordering} (hq : q.isLE) (r s : Ordering) :
    (o.then .lt).then r = (o.then q).then (Ordering.then .lt s) := by
  cases o with
  | lt | gt => rfl
  | eq =>
    cases q with
    | lt | eq => rfl
    | gt => cases hq

instance : Std.TransCmp Timestamp.compare :=
  inferInstanceAs (Std.TransCmp (compareLex (compareOn Timestamp.seconds) (compareOn Timestamp.nanos)))

instance : Std.TransCmp Double.totalCompare :=
  inferInstanceAs (Std.TransCmp (compareOn Double.totalKey))

namespace Value

/-! ## Values without a number that stands for two integers -/

mutual

/-- The values inside a value that are no lists. -/
def scalars : Value → List Value
  | .list items => scalarsOf items
  | v => [v]

def scalarsOf : List Value → List Value
  | [] => []
  | v :: rest => v.scalars ++ scalarsOf rest

end

/-- Whether two different integers are rounded to one floating-point number. -/
def meets : Value → Value → Value → Bool
  | .int i, .float x, .int j =>
    Double.ofInt i.toInt == x && Double.ofInt j.toInt == x && i != j
  | _, _, _ => false

/-- No floating-point number among some values is what two different integers among them are rounded
to. -/
def NumbersApart (values : List Value) : Prop :=
  ∀ u ∈ values, ∀ v ∈ values, ∀ w ∈ values, meets u v w = false

instance (values : List Value) : Decidable (NumbersApart values) := by
  unfold NumbersApart
  infer_instance

theorem mem_scalars_of_rank {v : Value} (h : v.rank = 2) : v ∈ v.scalars := by
  cases v with
  | int _ | float _ => exact List.mem_singleton_self _
  | null | bool _ | string _ | dateTime _ | list _ => cases h

/-! ## Numbers -/

/-- The place of a number in the order of floating-point numbers. -/
def numberKey : Value → Int
  | .int i => (Double.ofInt i.toInt).totalKey
  | .float x => x.totalKey
  | _ => 0

/-- The place of a number among some that are rounded to the same floating-point number: integers keep
their order if that number is not one of them. -/
def tieKey (values : List Value) : Value → Int
  | .int i => if .float (Double.ofInt i.toInt) ∈ values then 0 else i.toInt
  | _ => 0

def compareNumbers (values : List Value) : Value → Value → Ordering :=
  compareLex (compareOn numberKey) (compareOn (tieKey values))

instance (values : List Value) : Std.TransCmp (compareNumbers values) :=
  inferInstanceAs (Std.TransCmp (compareLex _ _))

theorem numberKey_int (i : Int64) : numberKey (.int i) = (Double.ofInt i.toInt).totalKey := rfl

theorem numberKey_float (x : Double) : numberKey (.float x) = x.totalKey := rfl

theorem compareNumbers_eq (values : List Value) (u v : Value) :
    compareNumbers values u v = (compare (numberKey u) (numberKey v)).then
      (compare (tieKey values u) (tieKey values v)) := rfl

theorem compareNumbers_swap (values : List Value) (u v : Value) :
    compareNumbers values u v = (compareNumbers values v u).swap := Std.OrientedCmp.eq_swap

section Numbers

variable {values : List Value}

theorem tieKey_int_of_mem {i : Int64} (h : .float (Double.ofInt i.toInt) ∈ values) :
    tieKey values (.int i) = 0 := if_pos h

theorem tieKey_int_of_not_mem {i : Int64} (h : .float (Double.ofInt i.toInt) ∉ values) :
    tieKey values (.int i) = i.toInt := if_neg h

/-- An integer meets a floating-point number where it is rounded to it. -/
theorem compareNumbers_int_float (i : Int64) {x : Double} (hx : .float x ∈ values) :
    compareNumbers values (.int i) (.float x) = (Double.ofInt i.toInt).totalCompare x := by
  rw [compareNumbers_eq, numberKey_int, numberKey_float, ← Double.totalCompare]
  cases hcompare : (Double.ofInt i.toInt).totalCompare x with
  | lt => rfl
  | gt => rfl
  | eq =>
    rw [← Double.totalCompare_eq_eq_iff.mp hcompare] at hx
    rw [tieKey_int_of_mem hx]
    rfl

variable (h : NumbersApart values)
include h

theorem compareNumbers_int_lt {i j : Int64} (hi : .int i ∈ values) (hj : .int j ∈ values)
    (hlt : i.toInt < j.toInt) : compareNumbers values (.int i) (.int j) = .lt := by
  rw [compareNumbers_eq, numberKey_int, numberKey_int]
  rcases Int.lt_or_eq_of_le (Double.totalKey_ofInt_mono (Int.le_of_lt hlt)) with hkey | hkey
  · rw [Int.compare_eq_lt.mpr hkey]
    rfl
  · -- The two are rounded to one number, so that number is not among the values.
    have hround := Double.totalKey_injective hkey
    have hne : i ≠ j := by
      rintro rfl
      exact Int.lt_irrefl _ hlt
    have habsent : .float (Double.ofInt i.toInt) ∉ values := by
      intro hx
      have hmeets := h _ hi _ hx _ hj
      rw [meets, hround, beq_self_eq_true, Bool.true_and, Bool.true_and, bne_eq_false_iff_eq] at hmeets
      exact hne hmeets
    rw [tieKey_int_of_not_mem habsent]
    rw [hround] at habsent
    rw [tieKey_int_of_not_mem habsent, Int.compare_eq_eq.mpr hkey]
    exact Int.compare_eq_lt.mpr hlt

theorem compareNumbers_int {i j : Int64} (hi : .int i ∈ values) (hj : .int j ∈ values) :
    compareNumbers values (.int i) (.int j) = compare i.toInt j.toInt := by
  rcases Int.lt_trichotomy i.toInt j.toInt with hlt | heq | hgt
  · rw [compareNumbers_int_lt h hi hj hlt, Int.compare_eq_lt.mpr hlt]
  · rw [Int64.toInt_inj.mp heq, compareNumbers_eq, Int.compare_eq_eq.mpr rfl,
      Int.compare_eq_eq.mpr rfl, Int.compare_eq_eq.mpr rfl]
    rfl
  · rw [compareNumbers_swap, compareNumbers_int_lt h hj hi hgt, Int.compare_eq_gt.mpr hgt]
    rfl

/-- Among numbers apart the sort order is an order by keys. -/
theorem sortCompare_eq_compareNumbers {u v : Value} (hu : u ∈ values) (hv : v ∈ values)
    (hru : u.rank = 2) (hrv : v.rank = 2) : sortCompare u v = compareNumbers values u v := by
  cases u with
  | int i =>
    cases v with
    | int j =>
      rw [sortCompare, compareNumbers_int h hu hv]
    | float y => rw [sortCompare, compareNumbers_int_float i hv]
    | null | bool _ | string _ | dateTime _ | list _ => cases hrv
  | float x =>
    cases v with
    | int j =>
      rw [compareNumbers_swap, compareNumbers_int_float j hu, sortCompare]
      exact Std.OrientedCmp.eq_swap
    | float y =>
      rw [sortCompare, compareNumbers_eq]
      exact Ordering.then_eq.symm
    | null | bool _ | string _ | dateTime _ | list _ => cases hrv
  | null | bool _ | string _ | dateTime _ | list _ => cases hru

end Numbers

/-! ## All values -/

section Kinds

variable {a b c : Value}

/-- Values of different kinds are compared by their kinds. -/
theorem sortCompare_of_rank_ne (h : a.rank ≠ b.rank) : sortCompare a b = compare a.rank b.rank := by
  cases a <;> cases b <;> first | rfl | exact absurd rfl h

theorem rank_le_of_isLE (h : (sortCompare a b).isLE) : a.rank ≤ b.rank := by
  by_cases hrank : a.rank = b.rank
  · exact Nat.le_of_eq hrank
  · rw [sortCompare_of_rank_ne hrank, Nat.isLE_compare] at h
    exact h

theorem sortCompare_of_rank_lt (h : a.rank < b.rank) : sortCompare a b = .lt := by
  rw [sortCompare_of_rank_ne (Nat.ne_of_lt h)]
  exact Nat.compare_eq_lt.mpr h

/-- A chain that leaves a kind is decided by the kinds. -/
theorem sortCompare_eq_then_of_rank_ne (hab : (sortCompare a b).isLE) (hbc : (sortCompare b c).isLE)
    (h : ¬(a.rank = b.rank ∧ b.rank = c.rank)) :
    sortCompare a c = (sortCompare a b).then (sortCompare b c) := by
  have hle := rank_le_of_isLE hab
  have hle' := rank_le_of_isLE hbc
  rw [sortCompare_of_rank_lt (show a.rank < c.rank by omega)]
  rcases Nat.lt_or_eq_of_le hle with hlt | heq
  · rw [sortCompare_of_rank_lt hlt]
    rfl
  · rw [sortCompare_of_rank_lt (show b.rank < c.rank by omega)]
    cases hcompare : sortCompare a b with
    | lt => rfl
    | eq => rfl
    | gt =>
      rw [hcompare] at hab
      cases hab

end Kinds

section Chains

variable {values : List Value}

theorem sortCompare_eq_then_numbers (h : NumbersApart values) {a b c : Value} (ha : a ∈ values) (hb : b ∈ values)
    (hc : c ∈ values) (hra : a.rank = 2) (hrb : b.rank = 2) (hrc : c.rank = 2)
    (hab : (sortCompare a b).isLE) (hbc : (sortCompare b c).isLE) :
    sortCompare a c = (sortCompare a b).then (sortCompare b c) := by
  rw [sortCompare_eq_compareNumbers h ha hb hra hrb] at hab ⊢
  rw [sortCompare_eq_compareNumbers h hb hc hrb hrc] at hbc ⊢
  rw [sortCompare_eq_compareNumbers h ha hc hra hrc]
  exact compare_eq_then hab hbc

mutual

/-- Where numbers are apart, the steps of a chain without a step down decide the comparison of its
ends. -/
theorem sortCompare_eq_then (h : NumbersApart values) (a b c : Value) (ha : a.scalars ⊆ values)
    (hb : b.scalars ⊆ values) (hc : c.scalars ⊆ values) (hab : (sortCompare a b).isLE) (hbc : (sortCompare b c).isLE) :
    sortCompare a c = (sortCompare a b).then (sortCompare b c) := by
  by_cases hrank : a.rank = b.rank ∧ b.rank = c.rank
  · obtain ⟨hrank, hrank'⟩ := hrank
    cases a with
    | null =>
      cases b with
      | null =>
        cases c with
        | null => rfl
        | _ => cases hrank'
      | _ => cases hrank
    | bool x =>
      cases b with
      | bool y =>
        cases c with
        | bool z => exact @compare_eq_then Bool compare _ _ _ _ hab hbc
        | _ => cases hrank'
      | _ => cases hrank
    | int i =>
      exact sortCompare_eq_then_numbers h (ha (mem_scalars_of_rank rfl))
        (hb (mem_scalars_of_rank hrank.symm)) (hc (mem_scalars_of_rank (hrank.trans hrank').symm)) rfl
        hrank.symm (hrank.trans hrank').symm hab hbc
    | float x =>
      exact sortCompare_eq_then_numbers h (ha (mem_scalars_of_rank rfl))
        (hb (mem_scalars_of_rank hrank.symm)) (hc (mem_scalars_of_rank (hrank.trans hrank').symm)) rfl
        hrank.symm (hrank.trans hrank').symm hab hbc
    | string s =>
      cases b with
      | string t =>
        cases c with
        | string u => exact @compare_eq_then String compare _ _ _ _ hab hbc
        | _ => cases hrank'
      | _ => cases hrank
    | dateTime s =>
      cases b with
      | dateTime t =>
        cases c with
        | dateTime u => exact @compare_eq_then Timestamp Timestamp.compare _ _ _ _ hab hbc
        | _ => cases hrank'
      | _ => cases hrank
    | list as =>
      cases b with
      | list bs =>
        cases c with
        | list cs => exact sortCompareList_eq_then h as bs cs ha hb hc hab hbc
        | _ => cases hrank'
      | _ => cases hrank
  · exact sortCompare_eq_then_of_rank_ne hab hbc hrank

theorem sortCompareList_eq_then (h : NumbersApart values) (as bs cs : List Value)
    (ha : scalarsOf as ⊆ values) (hb : scalarsOf bs ⊆ values) (hc : scalarsOf cs ⊆ values)
    (hab : (sortCompareList as bs).isLE) (hbc : (sortCompareList bs cs).isLE) :
    sortCompareList as cs = (sortCompareList as bs).then (sortCompareList bs cs) := by
  cases as with
  | nil =>
    cases bs with
    | nil => rfl
    | cons b bs =>
      cases cs with
      | nil => cases hbc
      | cons c cs => rfl
  | cons a as =>
    cases bs with
    | nil => cases hab
    | cons b bs =>
      cases cs with
      | nil => cases hbc
      | cons c cs =>
        obtain ⟨ha, has⟩ := List.append_subset.mp ha
        obtain ⟨hb, hbs⟩ := List.append_subset.mp hb
        obtain ⟨hc, hcs⟩ := List.append_subset.mp hc
        unfold sortCompareList at hab hbc ⊢
        rw [Ordering.isLE_then_iff_and] at hab hbc
        obtain ⟨hab, habs⟩ := hab
        obtain ⟨hbc, hbcs⟩ := hbc
        rw [sortCompare_eq_then h a b c ha hb hc hab hbc]
        -- The first elements that differ decide both steps; where none does, the rest decides.
        rcases habs with hab | habs
        · rw [hab]
          rfl
        · rcases hbcs with hbc | hbcs
          · rw [hbc]
            exact then_lt_then _ habs _ _
          · rw [sortCompareList_eq_then h as bs cs has hbs hcs habs hbcs]
            exact then_exchange _ hbc habs _

end

end Chains

/-- A floating-point number to which two integers are rounded ties with both, though they do not tie. -/
theorem not_transitiveOn_rounded {i j : Int64} {x : Double} (h : meets (.int i) (.float x) (.int j)) :
    ¬TransitiveOn sortCompare [.int i, .float x, .int j] := by
  unfold meets at h
  simp only [Bool.and_eq_true, beq_iff_eq, bne_iff_ne] at h
  obtain ⟨⟨hi, hj⟩, hne⟩ := h
  have htie : sortCompare (.int i) (.float x) = .eq := by
    rw [sortCompare]
    exact Double.totalCompare_eq_eq_iff.mpr hi
  have htie' : sortCompare (.int j) (.float x) = .eq := by
    rw [sortCompare]
    exact Double.totalCompare_eq_eq_iff.mpr hj
  have hswap : sortCompare (.float x) (.int i) = .eq := by
    rw [← sortCompare_swap, htie]
    rfl
  have hswap' : sortCompare (.float x) (.int j) = .eq := by
    rw [← sortCompare_swap, htie']
    rfl
  intro ht
  have hij := ht (.int i) (by simp) (.float x) (by simp) (.int j) (by simp)
    (by rw [htie]; rfl) (by rw [hswap']; rfl)
  have hji := ht (.int j) (by simp) (.float x) (by simp) (.int i) (by simp)
    (by rw [htie']; rfl) (by rw [hswap]; rfl)
  rw [sortCompare, Int.isLE_compare] at hij hji
  exact hne (Int64.toInt_inj.mp (Int.le_antisymm hij hji))

/-- The sort order ties a value with itself, and exchanging two values turns its answer around. A chain
without a step down has no step down from its first value to its last one, and a step up if it has one,
as long as no floating-point number in it is what two different integers in it are rounded to; with such
a number the order is not transitive. An integer meets a floating-point number as the double that is
nearest to it, and floating-point numbers meet in the total order of their bits. -/
theorem sortCompare_total (a b c : Value) :
    sortCompare a a = .eq ∧
    sortCompare b a = (sortCompare a b).swap ∧
    (NumbersApart (scalarsOf [a, b, c]) → sortCompare a b ≠ .gt → sortCompare b c ≠ .gt →
      sortCompare a c ≠ .gt ∧
        (sortCompare a b = .lt ∨ sortCompare b c = .lt → sortCompare a c = .lt)) ∧
    (∀ i j x, meets (.int i) (.float x) (.int j) →
      ¬TransitiveOn sortCompare [.int i, .float x, .int j]) ∧
    (∀ (i : Int64) (x : Double), ∃ y : Double, y.IsNearest i.toInt ∧
      sortCompare (.int i) (.float x) = y.totalCompare x) ∧
    ∀ x y : Double, sortCompare (.float x) (.float y) = x.totalCompare y := by
  refine ⟨Std.ReflCmp.compare_self, (sortCompare_swap a b).symm, ?_,
    fun i j x => not_transitiveOn_rounded, ?_, fun x y => by rw [sortCompare]⟩
  · intro h hab hbc
    have hall := List.Subset.refl (scalarsOf [a, b, c])
    obtain ⟨ha, hall⟩ := List.append_subset.mp hall
    obtain ⟨hb, hall⟩ := List.append_subset.mp hall
    obtain ⟨hc, _⟩ := List.append_subset.mp hall
    rw [sortCompare_eq_then h a b c ha hb hc (Ordering.isLE_iff_ne_gt.mpr hab)
      (Ordering.isLE_iff_ne_gt.mpr hbc)]
    cases hcompare : sortCompare a b with
    | lt => exact ⟨nofun, fun _ => rfl⟩
    | eq => exact ⟨hbc, fun hstep => hstep.resolve_left nofun⟩
    | gt => exact absurd hcompare hab
  · intro i x
    refine ⟨Double.ofInt i.toInt, Double.isNearest_ofInt ?_, by rw [sortCompare]⟩
    have hlower := i.le_toInt
    have hupper := i.toInt_lt
    omega

/-- Two neighbouring integers that are rounded to one floating-point number. -/
theorem sortCompare_cycle :
    sortCompare (.int 9007199254740993) (.float ⟨0x4340000000000000⟩) ≠ .gt ∧
      sortCompare (.float ⟨0x4340000000000000⟩) (.int 9007199254740992) ≠ .gt ∧
      sortCompare (.int 9007199254740993) (.int 9007199254740992) = .gt := by
  decide +kernel

theorem sortCompare_total_mixed :
    NumbersApart (scalarsOf [.list [.int 9007199254740992, .null],
      .list [.float ⟨0x4340000000000000⟩, .bool true], .list [.int 9007199254740994]]) ∧
    sortCompare (.list [.int 9007199254740992, .null]) (.list [.int 9007199254740994]) = .lt := by
  have hapart : NumbersApart (scalarsOf [.list [.int 9007199254740992, .null],
      .list [.float ⟨0x4340000000000000⟩, .bool true], .list [.int 9007199254740994]]) := by
    decide +kernel
  obtain ⟨_, _, hchain, _⟩ := sortCompare_total (.list [.int 9007199254740992, .null])
    (.list [.float ⟨0x4340000000000000⟩, .bool true]) (.list [.int 9007199254740994])
  obtain ⟨_, hstep⟩ := hchain hapart (by decide +kernel) (by decide +kernel)
  exact ⟨hapart, hstep (.inl (by decide +kernel))⟩

end Value

end RowQuery
