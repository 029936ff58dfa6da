import Mathlib.Data.Set.Defs
import RowQuery.Proofs.Page.KeyOrder
import RowQuery.Proofs.Value.Plain

/-!
# Keys in lexicographic order

Two keys are compared like words: fields in which they tie are passed over, and the first other field
decides in its own direction. A key can therefore be cut anywhere: its front decides first, and its back
only where the fronts tie. Nothing is assumed about the fields of an ordering, so one may stand in it twice
and in both directions; the second occurrence never decides.

Results:
* `compareKeys_take_drop`: the front of two keys decides first, wherever they are cut.
* `exists_first_difference`: rows that do not tie are ordered by the first field in which they differ.
* `transCmp_compareKeys`: keys of one length are ordered up to ties by a comparison that is transitive on
  their values.
* `compareKeys_lexicographic`: all of these, of the keys of an ordering and the field that breaks ties.
-/

namespace RowQuery

/-- A comparison is transitive on the elements of a set. -/
def TransitiveIn {α : Type} (cmp : α → α → Ordering) (values : Set α) : Prop :=
  ∀ a ∈ values, ∀ b ∈ values, ∀ c ∈ values, (cmp a b).isLE → (cmp b c).isLE → (cmp a c).isLE

theorem TransitiveIn.transitiveOn {α : Type} {cmp : α → α → Ordering} {values : Set α} {xs : List α}
    (h : TransitiveIn cmp values) (hxs : ∀ x ∈ xs, x ∈ values) : TransitiveOn cmp xs :=
  fun a ha b hb c hc => h a (hxs a ha) b (hxs b hb) c (hxs c hc)

namespace OrderKey

/-- A key of a length with values from a set. -/
def KeyIn (n : Nat) (values : Set Value) : Type :=
  {key : List Value // key.length = n ∧ ∀ v ∈ key, v ∈ values}

/-! ## Cutting keys -/

/-- The front of two keys decides first, wherever they are cut. -/
theorem compareKeys_take_drop (keys : List OrderKey) (as bs : List Value) (n : Nat) :
    compareKeys keys as bs =
      (compareKeys keys (as.take n) (bs.take n)).then
        (compareKeys (keys.drop n) (as.drop n) (bs.drop n)) := by
  induction n generalizing keys as bs with
  | zero =>
    rw [List.take_zero, compareKeys_nil_left]
    rfl
  | succ n ih =>
    cases keys with
    | nil => rfl
    | cons k keys =>
      cases as with
      | nil => rw [List.take_nil, List.drop_nil, compareKeys_nil_left, compareKeys_nil_left,
          compareKeys_nil_left]; rfl
      | cons a as =>
        cases bs with
        | nil => rw [List.take_nil, List.drop_nil, compareKeys_nil_right, compareKeys_nil_right,
            compareKeys_nil_right]; rfl
        | cons b bs =>
          show _ = ((k.compareIn a b).then (compareKeys keys (as.take n) (bs.take n))).then _
          rw [Ordering.then_assoc, compareKeys_cons, ih]
          rfl

/-- A key that ends early is compared with the front of the other one. -/
theorem compareKeys_take_right (keys : List OrderKey) (as bs : List Value) (n : Nat) :
    compareKeys keys as (bs.take n) = compareKeys keys (as.take n) (bs.take n) := by
  induction n generalizing keys as bs with
  | zero => rw [List.take_zero, compareKeys_nil_right, compareKeys_nil_right]
  | succ n ih =>
    cases keys with
    | nil => rfl
    | cons k keys =>
      cases as with
      | nil => rfl
      | cons a as =>
        cases bs with
        | nil => rfl
        | cons b bs => exact congrArg _ (ih keys as bs)

/-- Keys in order have fronts in order. -/
theorem compareKeys_take_isLE {keys : List OrderKey} {as bs : List Value}
    (h : (compareKeys keys as bs).isLE) (n : Nat) :
    (compareKeys keys (as.take n) (bs.take n)).isLE := by
  rw [compareKeys_take_drop keys as bs n, Ordering.isLE_then_iff_and] at h
  exact h.1

/-! ## The first field that differs -/

section Rows

variable {ρ : Type} [Record ρ]

/-- Fields in which two rows tie are passed over, and the next one decides. -/
theorem compareRows_of_first {front back : List OrderKey} {k : OrderKey} {a b : ρ}
    (hfront : ∀ j ∈ front, (Record.value a j.field).sortCompare (Record.value b j.field) = .eq)
    (hk : (Record.value a k.field).sortCompare (Record.value b k.field) ≠ .eq) :
    compareRows (front ++ k :: back) a b =
      k.directed ((Record.value a k.field).sortCompare (Record.value b k.field)) := by
  have hties : compareRows front a b = .eq := (compareKeys_rowKey_eq_iff front a b).mpr hfront
  have hdecides : k.compareIn (Record.value a k.field) (Record.value b k.field) ≠ .eq :=
    mt (compareIn_eq_iff k _ _).mp hk
  rw [compareRows_append, hties, Ordering.eq_then]
  show (k.compareIn _ _).then (compareKeys back (rowKey back a) (rowKey back b)) = k.compareIn _ _
  cases houtcome : k.compareIn (Record.value a k.field) (Record.value b k.field) with
  | lt | gt => rfl
  | eq => exact absurd houtcome hdecides

/-- Rows that do not tie are ordered by the first field in which they differ. -/
theorem exists_first_difference {keys : List OrderKey} {a b : ρ} (h : compareRows keys a b ≠ .eq) :
    ∃ front k back, keys = front ++ k :: back ∧
      (∀ j ∈ front, (Record.value a j.field).sortCompare (Record.value b j.field) = .eq) ∧
      (Record.value a k.field).sortCompare (Record.value b k.field) ≠ .eq ∧
      compareRows keys a b =
        k.directed ((Record.value a k.field).sortCompare (Record.value b k.field)) := by
  cases hfind : keys.find? fun k =>
      (Record.value a k.field).sortCompare (Record.value b k.field) != .eq with
  | none =>
    refine absurd ((compareKeys_rowKey_eq_iff keys a b).mpr fun k hk => ?_) h
    simpa using List.find?_eq_none.mp hfind k hk
  | some k =>
    obtain ⟨hdiffers, front, back, rfl, hties⟩ := List.find?_eq_some_iff_append.mp hfind
    have hk : (Record.value a k.field).sortCompare (Record.value b k.field) ≠ .eq := by
      simpa using hdiffers
    have hfront : ∀ j ∈ front,
        (Record.value a j.field).sortCompare (Record.value b j.field) = .eq := by
      simpa using hties
    exact ⟨front, k, back, rfl, hfront, hk, compareRows_of_first hfront hk⟩

/-- The rows that tie in the keys of an ordering are those that tie in its fields and in the one that breaks
ties. -/
theorem compareRows_sortKeys_eq_iff {order : List OrderKey} {tiebreaker : String} {a b : ρ} :
    compareRows (sortKeys order tiebreaker) a b = .eq ↔
      (∀ k ∈ order, (Record.value a k.field).sortCompare (Record.value b k.field) = .eq) ∧
        (Record.value a tiebreaker).sortCompare (Record.value b tiebreaker) = .eq := by
  refine (compareKeys_rowKey_eq_iff _ a b).trans ?_
  unfold sortKeys
  split
  · next hsorts =>
    obtain ⟨k, hk, hfield⟩ := List.any_eq_true.mp hsorts
    refine ⟨fun h => ⟨h, ?_⟩, fun h => h.1⟩
    rw [← beq_iff_eq.mp hfield]
    exact h k hk
  · rw [List.forall_mem_append, List.forall_mem_singleton]
    rfl

end Rows

/-! ## Transitivity -/

/-- Keys of one length are ordered up to ties where the sort order is transitive on their values. -/
theorem transCmp_compareKeys {values : Set Value} (h : TransitiveIn Value.sortCompare values)
    (keys : List OrderKey) (n : Nat) :
    Std.TransCmp fun as bs : KeyIn n values => compareKeys keys as.1 bs.1 where
  eq_swap {as bs} := (compareKeys_swap keys bs.1 as.1).symm
  isLE_trans {as bs cs} hab hbc := by
    obtain ⟨as, hlength, has⟩ := as
    obtain ⟨bs, hlength', hbs⟩ := bs
    obtain ⟨cs, _, hcs⟩ := cs
    have hvalues : ∀ v ∈ as ++ bs ++ cs, v ∈ values := by
      intro v hv
      simp only [List.mem_append] at hv
      rcases hv with (hv | hv) | hv
      · exact has v hv
      · exact hbs v hv
      · exact hcs v hv
    refine compareKeys_isLE_trans (h.transitiveOn hvalues) ?_ ?_ ?_ (.inl ?_) hab hbc
    · exact fun v hv => List.mem_append_left _ (List.mem_append_left _ hv)
    · exact fun v hv => List.mem_append_left _ (List.mem_append_right _ hv)
    · exact fun v hv => List.mem_append_right _ hv
    · exact Nat.le_of_eq (hlength.trans hlength'.symm)

/-! ## Main statement -/

/-- The keys of an ordering include the field that breaks ties. Rows tie in them if and only if they tie in
every field of the ordering and in that field, and otherwise the first field in which they differ decides,
in its direction. On keys with values from a set on which the sort order is transitive, the comparison is a
total preorder; keys in order have fronts in order, whether both are cut or the second one alone, as a
cursor may be; and turning every direction around turns the comparison around. -/
theorem compareKeys_lexicographic {ρ : Type} [Record ρ] (order : List OrderKey) (tiebreaker : String) :
    sortsBy (sortKeys order tiebreaker) tiebreaker = true ∧
    (∀ a b : ρ, compareRows (sortKeys order tiebreaker) a b = .eq ↔
      (∀ k ∈ order, (Record.value a k.field).sortCompare (Record.value b k.field) = .eq) ∧
        (Record.value a tiebreaker).sortCompare (Record.value b tiebreaker) = .eq) ∧
    (∀ a b : ρ, compareRows (sortKeys order tiebreaker) a b ≠ .eq →
      ∃ front k back, sortKeys order tiebreaker = front ++ k :: back ∧
        (∀ j ∈ front, (Record.value a j.field).sortCompare (Record.value b j.field) = .eq) ∧
        (Record.value a k.field).sortCompare (Record.value b k.field) ≠ .eq ∧
        compareRows (sortKeys order tiebreaker) a b =
          k.directed ((Record.value a k.field).sortCompare (Record.value b k.field))) ∧
    (∀ values : Set Value, TransitiveIn Value.sortCompare values → ∀ n,
      Std.TransCmp fun as bs : KeyIn n values =>
        compareKeys (sortKeys order tiebreaker) as.1 bs.1) ∧
    (∀ as bs, (compareKeys (sortKeys order tiebreaker) as bs).isLE → ∀ n,
      (compareKeys (sortKeys order tiebreaker) (as.take n) (bs.take n)).isLE ∧
        (compareKeys (sortKeys order tiebreaker) as (bs.take n)).isLE) ∧
    ∀ as bs, compareKeys ((sortKeys order tiebreaker).map reversed) as bs =
      (compareKeys (sortKeys order tiebreaker) as bs).swap := by
  refine ⟨sortsBy_sortKeys order tiebreaker, fun a b => compareRows_sortKeys_eq_iff,
    fun a b => exists_first_difference, fun values h => transCmp_compareKeys h _, ?_,
    compareKeys_reversed _⟩
  intro as bs h n
  have hfront := compareKeys_take_isLE h n
  refine ⟨hfront, ?_⟩
  rw [compareKeys_take_right]
  exact hfront

theorem transitiveIn_integersAndTexts :
    TransitiveIn Value.sortCompare {v | v.isIntegerOrText = true} := by
  intro a ha b hb c hc
  have hplain : ∀ v ∈ [a, b, c], v.isIntegerOrText = true := by
    simpa using ⟨ha, hb, hc⟩
  exact Value.transitiveOn_integersAndTexts hplain a (by simp) b (by simp) c (by simp)

/-- An ordering with one field in both directions, behind which rows are told apart by their ids. -/
theorem compareKeys_lexicographic_twice :
    TransitiveIn Value.sortCompare {v | v.isIntegerOrText = true} ∧
    Std.TransCmp (fun as bs : KeyIn 3 {v | v.isIntegerOrText = true} =>
      compareKeys [desc "age", asc "age", asc "id"] as.1 bs.1) ∧
    (compareKeys [desc "age", asc "age", asc "id"] [.int 41, .int 41, .int 9] [.int 30]).isLE = true := by
  obtain ⟨_, _, _, htrans, hfronts, _⟩ :=
    @compareKeys_lexicographic Row _ [desc "age", asc "age"] "id"
  refine ⟨transitiveIn_integersAndTexts, htrans _ transitiveIn_integersAndTexts 3, ?_⟩
  obtain ⟨_, hfront⟩ := hfronts [.int 41, .int 41, .int 9] [.int 30, .int 30, .int 2] (by decide) 1
  exact hfront

end OrderKey

end RowQuery
