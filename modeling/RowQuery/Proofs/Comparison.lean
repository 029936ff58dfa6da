/-!
# Comparisons on the elements of a list

A comparison that answers the opposite for opposite elements, as `Std.OrientedCmp` says, orders the
elements of a list up to ties as soon as it is transitive on them. It need not be transitive on
anything else, so the assumption is made of the list at hand.

Results: `TransitiveOn.lt_of_lt_of_isLE` and `TransitiveOn.lt_of_isLE_of_lt`, a strict step makes a
chain strict.
-/

namespace RowQuery

/-- A comparison is transitive on the elements of a list. -/
def TransitiveOn {α : Type} (cmp : α → α → Ordering) (xs : List α) : Prop :=
  ∀ a ∈ xs, ∀ b ∈ xs, ∀ c ∈ xs, (cmp a b).isLE → (cmp b c).isLE → (cmp a c).isLE

instance {α : Type} (cmp : α → α → Ordering) (xs : List α) : Decidable (TransitiveOn cmp xs) := by
  unfold TransitiveOn
  infer_instance

namespace TransitiveOn

variable {α : Type} {cmp : α → α → Ordering} {xs : List α} {a b c : α}

theorem mono {ys : List α} (h : TransitiveOn cmp xs) (hs : ys ⊆ xs) : TransitiveOn cmp ys :=
  fun a ha b hb c hc => h a (hs ha) b (hs hb) c (hs hc)

theorem of_transCmp [Std.TransCmp cmp] (xs : List α) : TransitiveOn cmp xs :=
  fun _ _ _ _ _ _ hab hbc => Std.TransCmp.isLE_trans hab hbc

variable [Std.OrientedCmp cmp]

theorem lt_of_lt_of_isLE (h : TransitiveOn cmp xs) (ha : a ∈ xs) (hb : b ∈ xs) (hc : c ∈ xs)
    (hab : cmp a b = .lt) (hbc : (cmp b c).isLE) : cmp a c = .lt := by
  -- Were `c` not beyond `a`, then `b` would not be beyond `a` either.
  apply Std.OrientedCmp.lt_of_not_isLE
  intro hca
  exact Std.OrientedCmp.not_isLE_of_lt hab (h b hb c hc a ha hbc hca)

theorem lt_of_isLE_of_lt (h : TransitiveOn cmp xs) (ha : a ∈ xs) (hb : b ∈ xs) (hc : c ∈ xs)
    (hab : (cmp a b).isLE) (hbc : cmp b c = .lt) : cmp a c = .lt := by
  apply Std.OrientedCmp.lt_of_not_isLE
  intro hca
  exact Std.OrientedCmp.not_isLE_of_lt hbc (h c hc a ha b hb hca hab)

end TransitiveOn

end RowQuery
