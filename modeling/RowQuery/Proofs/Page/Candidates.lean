import RowQuery.Page.Paginate
import RowQuery.Proofs.Page.KeyOrder
import RowQuery.Proofs.StableSort

/-!
# The candidates of a page

The candidates of a query are the rows that pass its filters, each with its key and sorted by it. Two
assumptions about them recur: the sort order is transitive on the values of their keys, and no two of
them tie in the field that breaks ties.

Results:
* `mem_entriesOf`, `length_entriesOf`: the candidates are the rows that pass, each with its key.
* `map_row_entriesOf_perm`: their rows are the rows that pass, in another order.
* `entriesOf_sorted`: where the order is transitive, the candidates are sorted; by the keys in front they
  are even where it is transitive on the values in these alone (`entriesOf_sorted_front`).
* `entriesOf_strict`: where ties are broken too, they are in strict order.
* `entriesOf_closed_front`: those that pass a test against some values stand in front of the others.
-/

namespace RowQuery.Page

variable {ρ : Type}

/-! ## Definitions -/

/-- The order of two rows by their keys. -/
def compareEntries (keys : List OrderKey) (a b : Entry ρ) : Ordering :=
  OrderKey.compareKeys keys a.key b.key

/-- The keys by which a query sorts rows. -/
def keysOf (options : PageOptions) (q : Query) : List OrderKey :=
  OrderKey.sortKeys q.order options.tiebreaker

/-- A test of how rows compare with a cursor, which holds in front of the cursor and not behind it. -/
structure IsCut (test : Ordering → Bool) : Prop where
  front : test .lt = true
  behind : test .gt = false

theorem isCut_isLE : IsCut Ordering.isLE := ⟨rfl, rfl⟩

theorem isCut_isLT : IsCut Ordering.isLT := ⟨rfl, rfl⟩

variable [Record ρ]

/-- The rows that pass the filters of a query. -/
def passing (q : Query) (rows : List ρ) : List ρ :=
  rows.filter fun row => Filter.acceptsAll q.filters row

/-- The candidates of a query in order. -/
def entriesOf (options : PageOptions) (q : Query) (rows : List ρ) : List (Entry ρ) :=
  candidates (keysOf options q) q.filters rows

/-- The values in the keys of the rows that pass. -/
def keyValues (options : PageOptions) (q : Query) (rows : List ρ) : List Value :=
  (passing q rows).flatMap (OrderKey.rowKey (keysOf options q))

/-- The values in some of the keys of the rows that pass. -/
def valuesIn (keys : List OrderKey) (q : Query) (rows : List ρ) : List Value :=
  (passing q rows).flatMap (OrderKey.rowKey keys)

/-- No two rows that pass tie in the field that breaks ties. -/
def TiesBroken (options : PageOptions) (q : Query) (rows : List ρ) : Prop :=
  (passing q rows).Pairwise fun a b =>
    (Record.value a options.tiebreaker).sortCompare (Record.value b options.tiebreaker) ≠ .eq

instance (options : PageOptions) (q : Query) (rows : List ρ) :
    Decidable (TiesBroken options q rows) := by
  unfold TiesBroken
  infer_instance

/-! ## Members -/

omit [Record ρ] in
theorem compareEntries_swap (keys : List OrderKey) (a b : Entry ρ) :
    (compareEntries keys a b).swap = compareEntries keys b a :=
  OrderKey.compareKeys_swap keys a.key b.key

instance (keys : List OrderKey) : Std.OrientedCmp (compareEntries (ρ := ρ) keys) :=
  ⟨(compareEntries_swap keys _ _).symm⟩

section Members

variable {options : PageOptions} {q : Query} {rows : List ρ} {e : Entry ρ}

theorem entriesOf_perm (options : PageOptions) (q : Query) (rows : List ρ) :
    (entriesOf options q rows).Perm ((passing q rows).map (entryOf (keysOf options q))) :=
  StableSort.sort_perm _ _

/-- The rows of the candidates are the rows that pass, in another order. -/
theorem map_row_entriesOf_perm (options : PageOptions) (q : Query) (rows : List ρ) :
    ((entriesOf options q rows).map Entry.row).Perm (passing q rows) := by
  have hperm := (entriesOf_perm options q rows).map Entry.row
  rw [List.map_map] at hperm
  exact hperm.trans (.of_eq (List.map_id _))

theorem length_entriesOf (options : PageOptions) (q : Query) (rows : List ρ) :
    (entriesOf options q rows).length = (passing q rows).length := by
  rw [(entriesOf_perm options q rows).length_eq, List.length_map]

theorem mem_entriesOf :
    e ∈ entriesOf options q rows ↔ ∃ row ∈ passing q rows, entryOf (keysOf options q) row = e := by
  rw [(entriesOf_perm options q rows).mem_iff, List.mem_map]

theorem row_mem_passing (h : e ∈ entriesOf options q rows) : e.row ∈ passing q rows := by
  obtain ⟨row, hrow, rfl⟩ := mem_entriesOf.mp h
  exact hrow

theorem key_eq_rowKey (h : e ∈ entriesOf options q rows) :
    e.key = OrderKey.rowKey (keysOf options q) e.row := by
  obtain ⟨row, _, rfl⟩ := mem_entriesOf.mp h
  rfl

theorem length_key (h : e ∈ entriesOf options q rows) : e.key.length = (keysOf options q).length := by
  rw [key_eq_rowKey h, OrderKey.length_rowKey]

theorem key_subset_keyValues (h : e ∈ entriesOf options q rows) :
    e.key ⊆ keyValues options q rows := by
  intro v hv
  rw [key_eq_rowKey h] at hv
  exact List.mem_flatMap.mpr ⟨e.row, row_mem_passing h, hv⟩

theorem rowKey_subset_valuesIn (keys : List OrderKey) (h : e ∈ entriesOf options q rows) :
    OrderKey.rowKey keys e.row ⊆ valuesIn keys q rows :=
  fun _ hv => List.mem_flatMap.mpr ⟨e.row, row_mem_passing h, hv⟩

end Members

/-! ## Order -/

section Order

variable {options : PageOptions} {q : Query} {rows : List ρ}

theorem entriesOf_transitive (h : TransitiveOn Value.sortCompare (keyValues options q rows)) :
    TransitiveOn (compareEntries (keysOf options q)) (entriesOf options q rows) := by
  intro a ha b hb c hc hab hbc
  have hl : a.key.length ≤ b.key.length := Nat.le_of_eq ((length_key ha).trans (length_key hb).symm)
  exact OrderKey.compareKeys_isLE_trans h (key_subset_keyValues ha) (key_subset_keyValues hb)
    (key_subset_keyValues hc) (.inl hl) hab hbc

theorem length_rowKey_le (keys : List OrderKey) (a b : ρ) :
    (OrderKey.rowKey keys a).length ≤ (OrderKey.rowKey keys b).length :=
  Nat.le_of_eq ((OrderKey.length_rowKey keys a).trans (OrderKey.length_rowKey keys b).symm)

/-- By the keys in front the candidates are sorted wherever the order is transitive on the values in
these, whatever the values behind them. -/
theorem entriesOf_sorted_front {front : List OrderKey} (hf : front <+: keysOf options q)
    (h : TransitiveOn Value.sortCompare (valuesIn front q rows)) :
    (entriesOf options q rows).Pairwise fun a b => (OrderKey.compareRows front a.row b.row).isLE := by
  have hkey {e : Entry ρ} (he : e ∈ (passing q rows).map (entryOf (keysOf options q))) :
      e ∈ entriesOf options q rows :=
    (entriesOf_perm options q rows).mem_iff.mpr he
  have hvalues {e : Entry ρ} (he : e ∈ (passing q rows).map (entryOf (keysOf options q))) :
      OrderKey.rowKey front e.row ⊆ valuesIn front q rows :=
    rowKey_subset_valuesIn front (hkey he)
  let compareFront (a b : Entry ρ) : Ordering := OrderKey.compareRows front a.row b.row
  have htrans : TransitiveOn compareFront ((passing q rows).map (entryOf (keysOf options q))) := by
    intro a ha b hb c hc hab hbc
    exact OrderKey.compareKeys_isLE_trans h (hvalues ha) (hvalues hb) (hvalues hc)
      (.inl (length_rowKey_le front a.row b.row)) hab hbc
  -- What precedes by all keys is not behind by those in front.
  have hrespects : StableSort.Respects (precedes (keysOf options q)) compareFront
      ((passing q rows).map (entryOf (keysOf options q))) := by
    intro a ha b hb
    obtain ⟨back, hback⟩ := hf
    have hcompare : OrderKey.compareKeys (keysOf options q) a.key b.key =
        (OrderKey.compareRows front a.row b.row).then (OrderKey.compareRows back a.row b.row) := by
      rw [key_eq_rowKey (hkey ha), key_eq_rowKey (hkey hb), ← OrderKey.compareRows_append, hback]
      rfl
    show if (_ == Ordering.lt) = true then (OrderKey.compareRows front a.row b.row).isLE = true
      else (OrderKey.compareRows front b.row a.row).isLE = true
    rw [hcompare, ← OrderKey.compareRows_swap front a.row b.row]
    cases OrderKey.compareRows front a.row b.row with
    | lt => rfl
    | eq => cases OrderKey.compareRows back a.row b.row <;> rfl
    | gt => rfl
  exact StableSort.sort_sorted_of_respects htrans hrespects

/-- Where the order is transitive on the values of their keys, the candidates are sorted. -/
theorem entriesOf_sorted (h : TransitiveOn Value.sortCompare (keyValues options q rows)) :
    (entriesOf options q rows).Pairwise fun a b =>
      (compareEntries (keysOf options q) a b).isLE := by
  refine (entriesOf_sorted_front (List.prefix_refl _) h).imp_of_mem ?_
  intro a b ha hb hab
  unfold compareEntries
  rw [key_eq_rowKey ha, key_eq_rowKey hb]
  exact hab

/-- Where ties are broken as well, the candidates are in strict order. -/
theorem entriesOf_strict (h : TransitiveOn Value.sortCompare (keyValues options q rows))
    (ht : TiesBroken options q rows) :
    (entriesOf options q rows).Pairwise fun a b => compareEntries (keysOf options q) a b = .lt := by
  have hne : (entriesOf options q rows).Pairwise fun a b =>
      compareEntries (keysOf options q) a b ≠ .eq := by
    refine (entriesOf_perm options q rows).symm.pairwise ?_ ?_
    · rw [List.pairwise_map]
      exact ht.imp fun hab => OrderKey.compareKeys_rowKey_ne_eq hab
    · intro a b hab hba
      exact hab (Std.OrientedCmp.eq_symm hba)
  refine ((entriesOf_sorted h).and hne).imp ?_
  rintro a b ⟨hle, hab⟩
  cases hc : compareEntries (keysOf options q) a b with
  | lt => rfl
  | eq => exact absurd hc hab
  | gt => rw [hc] at hle; cases hle

/-- In front of a candidate that passes a test against some values, by the keys in front, all pass it. -/
theorem entriesOf_closed_front {test : Ordering → Bool} (ht : IsCut test) {front : List OrderKey}
    {values : List Value} (hf : front <+: keysOf options q)
    (h : TransitiveOn Value.sortCompare (valuesIn front q rows ++ values)) :
    (entriesOf options q rows).Pairwise fun a b =>
      test (OrderKey.compareKeys front (OrderKey.rowKey front b.row) values) = true →
        test (OrderKey.compareKeys front (OrderKey.rowKey front a.row) values) = true := by
  have hkeys {e : Entry ρ} (he : e ∈ entriesOf options q rows) :
      OrderKey.rowKey front e.row ⊆ valuesIn front q rows ++ values :=
    List.subset_append_of_subset_left _ (rowKey_subset_valuesIn front he)
  refine (entriesOf_sorted_front hf (h.mono (List.subset_append_left _ _))).imp_of_mem ?_
  intro a b ha hb hab htest
  cases hvalues : OrderKey.compareKeys front (OrderKey.rowKey front b.row) values with
  | lt =>
    rw [OrderKey.compareKeys_lt_of_isLE_of_lt h (hkeys ha) (hkeys hb)
      (List.subset_append_right _ _) (.inl (length_rowKey_le front b.row a.row)) hab hvalues]
    exact ht.front
  | eq =>
    -- The candidate behind is tied with the values, so the one in front is tied with them or in front.
    have hle := OrderKey.compareKeys_isLE_trans h (hkeys ha) (hkeys hb)
      (List.subset_append_right _ _) (.inl (length_rowKey_le front a.row b.row)) hab
      (Ordering.isLE_of_eq_eq hvalues)
    rw [hvalues] at htest
    cases hfront : OrderKey.compareKeys front (OrderKey.rowKey front a.row) values with
    | lt => exact ht.front
    | eq => exact htest
    | gt => rw [hfront] at hle; cases hle
  | gt =>
    rw [hvalues, ht.behind] at htest
    cases htest

theorem entriesOf_closed {test : Ordering → Bool} (ht : IsCut test) {values : List Value}
    (h : TransitiveOn Value.sortCompare (keyValues options q rows ++ values)) :
    (entriesOf options q rows).Pairwise fun a b =>
      test (OrderKey.compareKeys (keysOf options q) b.key values) = true →
        test (OrderKey.compareKeys (keysOf options q) a.key values) = true := by
  refine (entriesOf_closed_front ht (List.prefix_refl _) h).imp_of_mem ?_
  intro a b ha hb hab
  rw [key_eq_rowKey ha, key_eq_rowKey hb]
  exact hab

end Order

/-! ## Some rows -/

/-- Four people, two of them of the same age and one of unknown age. -/
def people : List Row :=
  [⟨[("id", .int 1), ("age", .int 30)]⟩, ⟨[("id", .int 2), ("age", .int 20)]⟩,
    ⟨[("id", .int 3), ("age", .int 30)]⟩, ⟨[("id", .int 4)]⟩]

/-- The query for all rows by falling age. -/
def oldestFirst : Query := { Query.all with order := [.desc "age"] }

end RowQuery.Page
