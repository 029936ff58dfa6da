import RowQuery.Page.Key
import RowQuery.Proofs.Comparison
import RowQuery.Proofs.Value.SortOrder

/-!
# The order of keys of rows

Keys are compared field by field, each in the direction of its field, and the first fields that differ
decide. The comparison is the opposite for opposite keys, and transitive where the sort order is
transitive on the values in the keys. Both also hold of a key that ends early, as one recorded by a
cursor may, as long as the key in the middle of a chain is not the shortest.

Results:
* `compareKeys_swap`, `compareKeys_reversed`: exchanging the keys turns the answer around, and so does
  turning every direction around.
* `compareKeys_isLE_trans`, `compareKeys_lt_of_isLE_of_lt`: the comparison is transitive.
* `compareKeys_rowKey_eq_iff`: rows tie if and only if their values do in every field.
-/

namespace RowQuery.OrderKey

/-! ## One field -/

/-- The order of two values in the direction of a key. -/
def compareIn (k : OrderKey) (a b : Value) : Ordering := k.directed (a.sortCompare b)

theorem compareIn_swap (k : OrderKey) (a b : Value) : (k.compareIn a b).swap = k.compareIn b a := by
  unfold compareIn directed
  split
  · rw [Value.sortCompare_swap]
  · rw [Value.sortCompare_swap]

instance (k : OrderKey) : Std.OrientedCmp k.compareIn := ⟨(compareIn_swap k _ _).symm⟩

theorem compareIn_eq_iff (k : OrderKey) (a b : Value) :
    k.compareIn a b = .eq ↔ a.sortCompare b = .eq := by
  unfold compareIn directed
  split
  · cases a.sortCompare b <;> decide
  · exact Iff.rfl

/-- Where the sort order is transitive, it is in the direction of a key. -/
theorem compareIn_transitive {values : List Value} (h : TransitiveOn Value.sortCompare values)
    (k : OrderKey) : TransitiveOn k.compareIn values := by
  intro a ha b hb c hc hab hbc
  unfold compareIn directed at *
  cases hk : k.descending with
  | false =>
    simp only [hk, Bool.false_eq_true, if_false] at hab hbc ⊢
    exact h a ha b hb c hc hab hbc
  | true =>
    simp only [hk, if_true, Value.sortCompare_swap] at hab hbc ⊢
    exact h c hc b hb a ha hbc hab

/-! ## Several fields -/

theorem compareKeys_cons (k : OrderKey) (keys : List OrderKey) (a b : Value) (as bs : List Value) :
    compareKeys (k :: keys) (a :: as) (b :: bs) =
      (k.compareIn a b).then (compareKeys keys as bs) := rfl

theorem compareKeys_nil_left (keys : List OrderKey) (bs : List Value) :
    compareKeys keys [] bs = .eq := by
  cases keys <;> rfl

theorem compareKeys_nil_right (keys : List OrderKey) (as : List Value) :
    compareKeys keys as [] = .eq := by
  cases keys <;> cases as <;> rfl

/-- Exchanging the keys turns the answer around. -/
theorem compareKeys_swap (keys : List OrderKey) (as bs : List Value) :
    (compareKeys keys as bs).swap = compareKeys keys bs as := by
  induction keys generalizing as bs with
  | nil => rfl
  | cons k keys ih =>
    cases as with
    | nil => rw [compareKeys_nil_left, compareKeys_nil_right]; rfl
    | cons a as =>
      cases bs with
      | nil => rfl
      | cons b bs =>
        rw [compareKeys_cons, compareKeys_cons, Ordering.swap_then, compareIn_swap, ih]

instance (keys : List OrderKey) : Std.OrientedCmp (compareKeys keys) :=
  ⟨(compareKeys_swap keys _ _).symm⟩

/-- Turning every direction around turns the answer around. -/
theorem compareKeys_reversed (keys : List OrderKey) (as bs : List Value) :
    compareKeys (keys.map reversed) as bs = (compareKeys keys as bs).swap := by
  induction keys generalizing as bs with
  | nil => rfl
  | cons k keys ih =>
    cases as with
    | nil => rfl
    | cons a as =>
      cases bs with
      | nil => rfl
      | cons b bs =>
        have hk : k.reversed.compareIn a b = (k.compareIn a b).swap := by
          unfold compareIn directed reversed
          cases k.descending
          · rfl
          · exact Ordering.swap_swap.symm
        rw [List.map_cons, compareKeys_cons, compareKeys_cons, Ordering.swap_then, hk, ih]

/-- The keys in front decide first. -/
theorem compareKeys_append {front : List OrderKey} {as bs : List Value}
    (ha : as.length = front.length) (hb : bs.length = front.length) (back : List OrderKey)
    (as' bs' : List Value) :
    compareKeys (front ++ back) (as ++ as') (bs ++ bs') =
      (compareKeys front as bs).then (compareKeys back as' bs') := by
  induction front generalizing as bs with
  | nil =>
    rw [List.eq_nil_of_length_eq_zero ha, List.eq_nil_of_length_eq_zero hb]
    rfl
  | cons k front ih =>
    cases as with
    | nil => cases ha
    | cons a as =>
      cases bs with
      | nil => cases hb
      | cons b bs =>
        rw [List.cons_append, List.cons_append, List.cons_append, compareKeys_cons, compareKeys_cons,
          ih (Nat.succ.inj ha) (Nat.succ.inj hb), Ordering.then_assoc]

section Transitive

variable {values : List Value} {keys : List OrderKey} {as bs cs : List Value}

/-- The comparison is transitive, unless the key in the middle is the shortest one. -/
theorem compareKeys_isLE_trans (h : TransitiveOn Value.sortCompare values) (ha : as ⊆ values)
    (hb : bs ⊆ values) (hc : cs ⊆ values) (hl : as.length ≤ bs.length ∨ cs.length ≤ bs.length)
    (hab : (compareKeys keys as bs).isLE) (hbc : (compareKeys keys bs cs).isLE) :
    (compareKeys keys as cs).isLE := by
  induction keys generalizing as bs cs with
  | nil => rfl
  | cons k keys ih =>
    cases as with
    | nil => rfl
    | cons a as =>
      cases cs with
      | nil => rfl
      | cons c cs =>
        cases bs with
        | nil => simp at hl
        | cons b bs =>
          obtain ⟨ha, has⟩ := List.cons_subset.mp ha
          obtain ⟨hb, hbs⟩ := List.cons_subset.mp hb
          obtain ⟨hc, hcs⟩ := List.cons_subset.mp hc
          have hk := compareIn_transitive h k
          rw [compareKeys_cons, Ordering.isLE_then_iff_or] at hab hbc ⊢
          -- A strict step at the first field ends the comparison; ties there hand over to the rest.
          rcases hab with hab | ⟨hab, hab'⟩
          · left
            refine hk.lt_of_lt_of_isLE ha hb hc hab ?_
            rcases hbc with hbc | ⟨hbc, _⟩ <;> rw [hbc] <;> rfl
          · rcases hbc with hbc | ⟨hbc, hbc'⟩
            · left
              exact hk.lt_of_isLE_of_lt ha hb hc (Ordering.isLE_of_eq_eq hab) hbc
            · right
              refine ⟨?_, ih has hbs hcs (by simpa using hl) hab' hbc'⟩
              apply Std.OrientedCmp.isLE_antisymm
              · exact hk a ha b hb c hc (Ordering.isLE_of_eq_eq hab) (Ordering.isLE_of_eq_eq hbc)
              · refine hk c hc b hb a ha ?_ ?_
                · exact Ordering.isLE_of_eq_eq (Std.OrientedCmp.eq_symm hbc)
                · exact Ordering.isLE_of_eq_eq (Std.OrientedCmp.eq_symm hab)

theorem compareKeys_lt_of_isLE_of_lt (h : TransitiveOn Value.sortCompare values)
    (ha : as ⊆ values) (hb : bs ⊆ values) (hc : cs ⊆ values)
    (hl : bs.length ≤ as.length ∨ cs.length ≤ as.length)
    (hab : (compareKeys keys as bs).isLE) (hbc : compareKeys keys bs cs = .lt) :
    compareKeys keys as cs = .lt := by
  apply Std.OrientedCmp.lt_of_not_isLE
  intro hca
  refine Std.OrientedCmp.not_isLE_of_lt hbc (compareKeys_isLE_trans h hc ha hb ?_ hca hab)
  exact hl.symm

end Transitive

/-! ## Keys of rows -/

variable {ρ : Type} [Record ρ]

/-- Rows tie if and only if their values tie in every field. -/
theorem compareKeys_rowKey_eq_iff (keys : List OrderKey) (a b : ρ) :
    compareKeys keys (rowKey keys a) (rowKey keys b) = .eq ↔
      ∀ k ∈ keys, (Record.value a k.field).sortCompare (Record.value b k.field) = .eq := by
  induction keys with
  | nil => simp [compareKeys]
  | cons k keys ih =>
    show compareKeys (k :: keys) (_ :: rowKey keys a) (_ :: rowKey keys b) = .eq ↔ _
    rw [compareKeys_cons, Ordering.then_eq_eq, compareIn_eq_iff, ih, List.forall_mem_cons]

theorem rowKey_append (front back : List OrderKey) (row : ρ) :
    rowKey (front ++ back) row = rowKey front row ++ rowKey back row :=
  List.map_append

theorem rowKey_map_reversed (keys : List OrderKey) (row : ρ) :
    rowKey (keys.map reversed) row = rowKey keys row := by
  unfold rowKey
  rw [List.map_map]
  rfl

/-- The order of two rows by an ordering. -/
def compareRows (order : List OrderKey) (a b : ρ) : Ordering :=
  compareKeys order (rowKey order a) (rowKey order b)

theorem compareRows_swap (order : List OrderKey) (a b : ρ) :
    (compareRows order a b).swap = compareRows order b a :=
  compareKeys_swap order _ _

instance (order : List OrderKey) : Std.OrientedCmp (compareRows (ρ := ρ) order) :=
  ⟨(compareRows_swap order _ _).symm⟩

theorem compareRows_reversed (order : List OrderKey) (a b : ρ) :
    compareRows (order.map reversed) a b = compareRows order b a := by
  unfold compareRows
  rw [compareKeys_reversed, rowKey_map_reversed, rowKey_map_reversed, compareKeys_swap]

/-- The keys in front decide first between two rows. -/
theorem compareRows_append (front back : List OrderKey) (a b : ρ) :
    compareRows (front ++ back) a b = (compareRows front a b).then (compareRows back a b) := by
  unfold compareRows
  rw [rowKey_append, rowKey_append]
  exact compareKeys_append (length_rowKey front a) (length_rowKey front b) back _ _

/-- Rows that do not tie in the field that breaks ties do not tie. -/
theorem compareKeys_rowKey_ne_eq {order : List OrderKey} {tiebreaker : String} {a b : ρ}
    (h : (Record.value a tiebreaker).sortCompare (Record.value b tiebreaker) ≠ .eq) :
    compareKeys (sortKeys order tiebreaker) (rowKey (sortKeys order tiebreaker) a)
      (rowKey (sortKeys order tiebreaker) b) ≠ .eq := by
  obtain ⟨k, hk, hfield⟩ := List.any_eq_true.mp (sortsBy_sortKeys order tiebreaker)
  intro htie
  have hties := (compareKeys_rowKey_eq_iff _ a b).mp htie k hk
  rw [beq_iff_eq.mp hfield] at hties
  exact h hties

end RowQuery.OrderKey
