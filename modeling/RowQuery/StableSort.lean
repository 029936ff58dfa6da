/-!
# Stable sorting

A list is sorted by taking its elements one after the other into a sorted list, each of them as far
back as the elements before it allow: an element moves only in front of elements that it strictly
precedes, so equal elements keep their order. The list is kept with its last element first, which is
the end where an element arrives.

Results: `sort_perm`, the sorted list has the same elements.
-/

namespace RowQuery.StableSort

variable {α : Type}

/-- Takes an element into a list that is sorted backwards. -/
def insert (lt : α → α → Bool) (x : α) : List α → List α
  | [] => [x]
  | y :: ys => if lt x y then y :: insert lt x ys else x :: y :: ys

/-- The list in ascending order, elements that neither precedes the other in the order given. -/
def sort (lt : α → α → Bool) (xs : List α) : List α :=
  (xs.foldl (fun sorted x => insert lt x sorted) []).reverse

theorem insert_perm (lt : α → α → Bool) (x : α) (xs : List α) : (insert lt x xs).Perm (x :: xs) := by
  induction xs with
  | nil => exact .refl _
  | cons y ys ih =>
    simp only [insert]
    split
    · exact (ih.cons y).trans (.swap x y ys)
    · exact .refl _

theorem foldl_insert_perm (lt : α → α → Bool) (xs sorted : List α) :
    (xs.foldl (fun sorted x => insert lt x sorted) sorted).Perm (xs ++ sorted) := by
  induction xs generalizing sorted with
  | nil => exact .refl _
  | cons x xs ih =>
    exact (ih _).trans (((insert_perm lt x sorted).append_left xs).trans List.perm_middle)

theorem sort_perm (lt : α → α → Bool) (xs : List α) : (sort lt xs).Perm xs := by
  have h := foldl_insert_perm lt xs []
  rw [List.append_nil] at h
  exact (List.reverse_perm _).trans h

end RowQuery.StableSort
