import RowQuery.Proofs.Comparison
import RowQuery.StableSort

/-!
# The stable sort

Sorting by insertion gives the one list that is sorted and keeps tied elements in the order given,
wherever the comparison is transitive. Any other stable sort gives the same list there, the merge sort
of the standard library among them.

Results:
* `sort_sorted`: the list is sorted, also by any coarser comparison (`sort_sorted_of_respects`).
* `tiesWith_sort`: tied elements keep their order.
* `eq_of_tiesWith`: a sorted list is determined by its elements and the order of those that tie, and
  by its elements alone if none of them do (`eq_of_strict`).
* `sort_filter`: sorting what passes a test is keeping what passes it of the sorted list.
* `sort_eq_mergeSort`: sorting by insertion is the merge sort.
-/

namespace RowQuery.StableSort

/-- Whether an element belongs strictly in front of another by a comparison. -/
def ltOf {α : Type} (cmp : α → α → Ordering) (a b : α) : Bool := cmp a b == .lt

/-- Whether an element belongs in front of another by a comparison or ties with it. -/
def leOf {α : Type} (cmp : α → α → Ordering) (a b : α) : Bool := (cmp a b).isLE

variable {α : Type}

theorem mem_sort {lt : α → α → Bool} {xs : List α} {x : α} : x ∈ sort lt xs ↔ x ∈ xs :=
  (sort_perm lt xs).mem_iff

/-! ## Sorted -/

/-- What belongs strictly in front never belongs behind by a comparison, nor the other way round. The
comparison may leave open what the test decides. -/
def Respects (lt : α → α → Bool) (cmp : α → α → Ordering) (xs : List α) : Prop :=
  ∀ a ∈ xs, ∀ b ∈ xs, if lt a b then (cmp a b).isLE else (cmp b a).isLE

section Sorted

variable {lt : α → α → Bool} {cmp : α → α → Ordering}

theorem Respects.mono {xs ys : List α} (h : Respects lt cmp xs) (hs : ys ⊆ xs) :
    Respects lt cmp ys :=
  fun a ha b hb => h a (hs ha) b (hs hb)

theorem respects_ltOf [Std.OrientedCmp cmp] (xs : List α) : Respects (ltOf cmp) cmp xs := by
  intro a _ b _
  have hswap : cmp b a = (cmp a b).swap := Std.OrientedCmp.eq_swap
  unfold ltOf
  rw [hswap]
  cases cmp a b <;> decide

/-- The list into which the elements are taken is sorted backwards. -/
theorem insert_sorted {x : α} {ys : List α} (h : TransitiveOn cmp (x :: ys))
    (hlt : Respects lt cmp (x :: ys)) (hs : ys.Pairwise fun a b => (cmp b a).isLE) :
    (insert lt x ys).Pairwise fun a b => (cmp b a).isLE := by
  induction ys with
  | nil => exact List.pairwise_singleton _ x
  | cons y ys ih =>
    obtain ⟨hy, hys⟩ := List.pairwise_cons.mp hs
    have hxy := hlt x List.mem_cons_self y (List.mem_cons_of_mem x List.mem_cons_self)
    have hsub : x :: ys ⊆ x :: y :: ys := by grind
    unfold insert
    split
    · next hfront =>
      rw [if_pos hfront] at hxy
      refine List.pairwise_cons.mpr ⟨?_, ih (h.mono hsub) (hlt.mono hsub) hys⟩
      intro z hz
      rcases List.mem_cons.mp ((insert_perm _ x ys).mem_iff.mp hz) with rfl | hz
      · exact hxy
      · exact hy z hz
    · next hfront =>
      rw [if_neg hfront] at hxy
      refine List.pairwise_cons.mpr ⟨?_, hs⟩
      intro z hz
      rcases List.mem_cons.mp hz with rfl | hz
      · exact hxy
      · exact h z (by simp [hz]) y (by simp) x (by simp) (hy z hz) hxy

theorem foldl_insert_sorted {xs sorted : List α} (h : TransitiveOn cmp (xs ++ sorted))
    (hlt : Respects lt cmp (xs ++ sorted)) (hs : sorted.Pairwise fun a b => (cmp b a).isLE) :
    (xs.foldl (fun sorted x => insert lt x sorted) sorted).Pairwise fun a b => (cmp b a).isLE := by
  induction xs generalizing sorted with
  | nil => exact hs
  | cons x xs ih =>
    have hinserted : xs ++ insert lt x sorted ⊆ (x :: xs) ++ sorted := by
      intro y hy
      have := (insert_perm lt x sorted).mem_iff (a := y)
      grind
    have hsub : x :: sorted ⊆ (x :: xs) ++ sorted := by grind
    exact ih (h.mono hinserted) (hlt.mono hinserted) (insert_sorted (h.mono hsub) (hlt.mono hsub) hs)

/-- Where a comparison is transitive, sorting by a test that respects it sorts by the comparison. -/
theorem sort_sorted_of_respects {xs : List α} (h : TransitiveOn cmp xs) (hlt : Respects lt cmp xs) :
    (sort lt xs).Pairwise fun a b => (cmp a b).isLE := by
  unfold sort
  rw [List.pairwise_reverse]
  exact foldl_insert_sorted (h.mono (by simp)) (hlt.mono (by simp)) .nil

/-- Where the comparison is transitive, the list is sorted. -/
theorem sort_sorted [Std.OrientedCmp cmp] {xs : List α} (h : TransitiveOn cmp xs) :
    (sort (ltOf cmp) xs).Pairwise fun a b => (cmp a b).isLE :=
  sort_sorted_of_respects h (respects_ltOf xs)

end Sorted

/-! ## Stable -/

/-- Elements that pass a test move past no element that passes it, if no two of them are in strict
order. -/
theorem filter_insert {lt : α → α → Bool} {p : α → Bool} {x : α} {ys : List α}
    (h : p x = true → ∀ y ∈ ys, p y = true → lt x y = false) :
    (insert lt x ys).filter p = (x :: ys).filter p := by
  induction ys with
  | nil => rfl
  | cons y ys ih =>
    have ih := ih fun hx z hz => h hx z (List.mem_cons_of_mem y hz)
    unfold insert
    split
    · next hlt =>
      -- `x` moves past `y`, so not both of them pass.
      rw [List.filter_cons, ih]
      cases hx : p x <;> cases hy : p y <;> simp [hx, hy]
      rw [h hx y List.mem_cons_self hy] at hlt
      exact absurd hlt Bool.false_ne_true
    · rfl

theorem filter_foldl_insert {lt : α → α → Bool} {p : α → Bool} {xs sorted : List α}
    (h : ∀ a ∈ xs ++ sorted, ∀ b ∈ xs ++ sorted, p a = true → p b = true → lt a b = false) :
    (xs.foldl (fun sorted x => insert lt x sorted) sorted).filter p =
      (xs.reverse ++ sorted).filter p := by
  induction xs generalizing sorted with
  | nil => rfl
  | cons x xs ih =>
    have hmem : ∀ y ∈ xs ++ insert lt x sorted, y ∈ (x :: xs) ++ sorted := by
      intro y hy
      have := (insert_perm lt x sorted).mem_iff (a := y)
      grind
    rw [List.foldl_cons, ih fun a ha b hb => h a (hmem a ha) b (hmem b hb), List.reverse_cons,
      List.append_assoc, List.filter_append, List.filter_append, List.singleton_append]
    rw [filter_insert fun hx y hy => h x (by simp) y (by simp [hy]) hx]

/-- Sorting keeps the order of elements of which no two are in strict order. -/
theorem filter_sort {lt : α → α → Bool} {p : α → Bool} {xs : List α}
    (h : ∀ a ∈ xs, ∀ b ∈ xs, p a = true → p b = true → lt a b = false) :
    (sort lt xs).filter p = xs.filter p := by
  unfold sort
  rw [List.filter_reverse, filter_foldl_insert (by simpa using h), List.append_nil,
    List.filter_reverse, List.reverse_reverse]

/-! ## The only sorted list with its ties in order -/

/-- The elements of a list that tie with one element. -/
def tiesWith (cmp : α → α → Ordering) (x : α) (xs : List α) : List α :=
  xs.filter fun y => cmp x y == .eq

theorem tiesWith_tail {cmp : α → α → Ordering} {x y : α} {ys zs : List α}
    (h : tiesWith cmp x (y :: ys) = tiesWith cmp x (y :: zs)) :
    tiesWith cmp x ys = tiesWith cmp x zs := by
  unfold tiesWith at *
  rw [List.filter_cons, List.filter_cons] at h
  split at h
  · exact (List.cons.inj h).2
  · exact h

theorem tiesWith_filter {cmp : α → α → Ordering} (x : α) (p : α → Bool) (xs : List α) :
    tiesWith cmp x (xs.filter p) = (tiesWith cmp x xs).filter p := by
  unfold tiesWith
  rw [List.filter_filter, List.filter_filter]
  exact List.filter_congr fun y _ => Bool.and_comm _ _

section Ties

variable {cmp : α → α → Ordering} [Std.OrientedCmp cmp]

theorem head_isLE {y z : α} {ys : List α} (h : (y :: ys).Pairwise fun a b => (cmp a b).isLE)
    (hz : z ∈ y :: ys) : (cmp y z).isLE := by
  rcases List.mem_cons.mp hz with rfl | hz
  · exact Std.ReflCmp.isLE_rfl
  · exact (List.pairwise_cons.mp h).1 z hz

/-- Two sorted lists of the same elements are the same if every element has its ties in the same
order in both. -/
theorem eq_of_tiesWith {ys zs : List α} (hp : ys.Perm zs)
    (hy : ys.Pairwise fun a b => (cmp a b).isLE) (hz : zs.Pairwise fun a b => (cmp a b).isLE)
    (h : ∀ x ∈ ys, tiesWith cmp x ys = tiesWith cmp x zs) : ys = zs := by
  induction ys generalizing zs with
  | nil => exact hp.nil_eq
  | cons y ys ih =>
    cases zs with
    | nil => exact hp.eq_nil
    | cons z zs =>
      -- The heads are minimal in both lists, so they tie, and each is the first of their ties.
      have hyz : cmp y z = .eq :=
        Std.OrientedCmp.isLE_antisymm (head_isLE hy (hp.mem_iff.mpr List.mem_cons_self))
          (head_isLE hz (hp.mem_iff.mp List.mem_cons_self))
      have heads : y = z := by
        have hties := h y List.mem_cons_self
        unfold tiesWith at hties
        rw [List.filter_cons_of_pos (by simp [Std.ReflCmp.compare_self]),
          List.filter_cons_of_pos (by simp [hyz])] at hties
        exact (List.cons.inj hties).1
      subst heads
      rw [ih ((List.perm_cons y).mp hp) (List.pairwise_cons.mp hy).2 (List.pairwise_cons.mp hz).2
        fun x hx => tiesWith_tail (h x (List.mem_cons_of_mem y hx))]

/-- Two lists of the same elements in strict order are the same. -/
theorem eq_of_strict {ys zs : List α} (hp : ys.Perm zs) (hy : ys.Pairwise fun a b => cmp a b = .lt)
    (hz : zs.Pairwise fun a b => cmp a b = .lt) : ys = zs := by
  refine hp.eq_of_pairwise ?_ hy hz
  intro a b _ _ hab hba
  exact absurd hba (Std.OrientedCmp.not_lt_of_lt hab)

/-- Tied elements keep their order. -/
theorem tiesWith_sort {xs : List α} (h : TransitiveOn cmp xs) {x : α} (hx : x ∈ xs) :
    tiesWith cmp x (sort (ltOf cmp) xs) = tiesWith cmp x xs := by
  apply filter_sort
  intro a ha b hb hxa hxb
  have hba : (cmp b a).isLE := by
    refine h b hb x hx a ha ?_ (Ordering.isLE_of_eq_eq (by simpa using hxa))
    exact Ordering.isLE_of_eq_eq (Std.OrientedCmp.eq_symm (by simpa using hxb))
  cases hab : cmp a b with
  | lt => exact absurd hba (Std.OrientedCmp.not_isLE_of_lt hab)
  | _ => simp [ltOf, hab]

/-- Sorting what passes a test is keeping what passes it of the sorted list, whatever the test makes of
elements that tie. -/
theorem sort_filter {xs : List α} (h : TransitiveOn cmp xs) (p : α → Bool) :
    sort (ltOf cmp) (xs.filter p) = (sort (ltOf cmp) xs).filter p := by
  have hpass : TransitiveOn cmp (xs.filter p) := h.mono List.filter_sublist.subset
  have hperm : (sort (ltOf cmp) (xs.filter p)).Perm ((sort (ltOf cmp) xs).filter p) :=
    (sort_perm _ _).trans ((sort_perm _ xs).symm.filter p)
  refine eq_of_tiesWith hperm (sort_sorted hpass) ((sort_sorted h).filter p) ?_
  intro x hx
  have hx : x ∈ xs.filter p := mem_sort.mp hx
  -- Both lists have those ties of `x` in the given list that pass.
  calc
    tiesWith cmp x (sort (ltOf cmp) (xs.filter p)) = tiesWith cmp x (xs.filter p) :=
      tiesWith_sort hpass hx
    _ = (tiesWith cmp x xs).filter p := tiesWith_filter x p xs
    _ = (tiesWith cmp x (sort (ltOf cmp) xs)).filter p := by
      rw [tiesWith_sort h (List.mem_filter.mp hx).1]
    _ = tiesWith cmp x ((sort (ltOf cmp) xs).filter p) := (tiesWith_filter x p _).symm

end Ties

/-! ## Other stable sorts -/

theorem insert_map {β : Type} {lt : β → β → Bool} (f : α → β) (x : α) (ys : List α) :
    insert lt (f x) (ys.map f) = (insert (fun a b => lt (f a) (f b)) x ys).map f := by
  induction ys with
  | nil => rfl
  | cons y ys ih =>
    simp only [List.map_cons, insert]
    split
    · rw [ih, List.map_cons]
    · rfl

/-- Sorting by what a function gives is sorting what it gives. -/
theorem sort_map {β : Type} {lt : β → β → Bool} (f : α → β) (xs : List α) :
    sort lt (xs.map f) = (sort (fun a b => lt (f a) (f b)) xs).map f := by
  have hfold : ∀ sorted : List α,
      (xs.map f).foldl (fun sorted x => insert lt x sorted) (sorted.map f) =
        (xs.foldl (fun sorted x => insert (fun a b => lt (f a) (f b)) x sorted) sorted).map f := by
    induction xs with
    | nil => intro sorted; rfl
    | cons x xs ih =>
      intro sorted
      rw [List.map_cons, List.foldl_cons, insert_map, ih, List.foldl_cons]
  unfold sort
  rw [← List.map_nil (f := f), hfold, List.map_reverse]

theorem sort_eq_mergeSort_of_transCmp {cmp : α → α → Ordering} [Std.TransCmp cmp] (xs : List α) :
    sort (ltOf cmp) xs = xs.mergeSort (leOf cmp) := by
  have htrans : ∀ a b c, leOf cmp a b = true → leOf cmp b c = true → leOf cmp a c = true :=
    fun _ _ _ hab hbc => Std.TransCmp.isLE_trans hab hbc
  have htotal : ∀ a b, (leOf cmp a b || leOf cmp b a) = true := by
    intro a b
    have hswap : cmp b a = (cmp a b).swap := Std.OrientedCmp.eq_swap
    unfold leOf
    rw [hswap]
    cases cmp a b <;> rfl
  have hperm : (sort (ltOf cmp) xs).Perm (xs.mergeSort (leOf cmp)) :=
    (sort_perm _ xs).trans (List.mergeSort_perm xs _).symm
  refine eq_of_tiesWith hperm (sort_sorted (.of_transCmp xs))
    (List.pairwise_mergeSort htrans htotal xs) ?_
  intro x hx
  rw [tiesWith_sort (.of_transCmp xs) (mem_sort.mp hx)]
  -- The ties form a sorted sublist of the list, which the merge sort keeps.
  have hsorted : (tiesWith cmp x xs).Pairwise fun a b => leOf cmp a b = true := by
    refine List.pairwise_of_forall_mem_list fun a ha b hb => ?_
    have hxa : cmp x a = .eq := by simpa using (List.mem_filter.mp ha).2
    have hxb : cmp x b = .eq := by simpa using (List.mem_filter.mp hb).2
    exact Ordering.isLE_of_eq_eq (Std.TransCmp.eq_trans (Std.OrientedCmp.eq_symm hxa) hxb)
  have hsub : (tiesWith cmp x xs).Sublist (tiesWith cmp x (xs.mergeSort (leOf cmp))) := by
    have := (List.sublist_mergeSort htrans htotal hsorted List.filter_sublist).filter
      fun y => cmp x y == .eq
    rwa [tiesWith, List.filter_filter, funext fun y => Bool.and_self (cmp x y == .eq)] at this
  exact hsub.eq_of_length ((List.mergeSort_perm xs _).symm.filter _).length_eq

/-- Where the comparison is transitive, sorting by insertion is the merge sort. -/
theorem sort_eq_mergeSort {cmp : α → α → Ordering} [Std.OrientedCmp cmp] {xs : List α}
    (h : TransitiveOn cmp xs) : sort (ltOf cmp) xs = xs.mergeSort (leOf cmp) := by
  -- On the elements of the list alone the comparison is transitive everywhere.
  let cmpIn : {x // x ∈ xs} → {x // x ∈ xs} → Ordering := fun a b => cmp a.val b.val
  have hswap : ∀ a b : α, cmp a b = (cmp b a).swap := fun _ _ => Std.OrientedCmp.eq_swap
  have : Std.TransCmp cmpIn :=
    { eq_swap := hswap _ _
      isLE_trans := fun {a b c} => h a.val a.property b.val b.property c.val c.property }
  calc
    sort (ltOf cmp) xs = sort (ltOf cmp) (xs.attach.map Subtype.val) := by
      rw [List.attach_map_subtype_val]
    _ = (sort (ltOf cmpIn) xs.attach).map Subtype.val := sort_map Subtype.val xs.attach
    _ = (xs.attach.mergeSort (leOf cmpIn)).map Subtype.val := by
      rw [sort_eq_mergeSort_of_transCmp]
    _ = (xs.attach.map Subtype.val).mergeSort (leOf cmp) :=
      List.map_mergeSort fun _ _ _ _ => rfl
    _ = xs.mergeSort (leOf cmp) := by rw [List.attach_map_subtype_val]

end RowQuery.StableSort
