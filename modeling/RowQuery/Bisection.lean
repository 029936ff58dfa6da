/-!
# Finding a border by bisection

In a list whose first elements pass a test and whose other elements do not, the number of elements
that pass is found by halving the range in which the border lies. Lists of any other form give a
number as well, which depends on the elements that were looked at.

Results: `border_eq_of_sorted`, on a list of that form the border is the number of elements that pass.
-/

namespace RowQuery.Bisection

/-- Narrows the range of `size` places from `base` on, in which the last place that passes is looked
for, to one place. -/
def narrow (passes : Nat → Bool) (base size : Nat) : Nat :=
  if 1 < size then
    let half := size / 2
    narrow passes (if passes (base + half) then base + half else base) (size - half)
  else base
termination_by size

/-- The number of elements in front of the border between those that pass and those that do not. -/
def border {α : Type} (test : α → Bool) (xs : List α) : Nat :=
  let passes (i : Nat) : Bool := xs[i]?.any test
  let i := narrow passes 0 xs.length
  if passes i then i + 1 else i

theorem narrow_of_border {passes : Nat → Bool} {n base size : Nat}
    (h : ∀ i, passes i = decide (i < n)) (hpos : 0 < size) (hbase : base ≤ n)
    (hsize : n ≤ base + size) :
    (if passes (narrow passes base size) then narrow passes base size + 1
      else narrow passes base size) = n := by
  fun_induction narrow passes base size with
  | case1 base size hlt half ih =>
    have hhalf : half = size / 2 := rfl
    refine ih (by omega) ?_ ?_
    · rw [h]
      by_cases hm : base + half < n <;> simp [hm] <;> omega
    · rw [h]
      by_cases hm : base + half < n <;> simp [hm] <;> omega
  | case2 base size hlt =>
    rw [h]
    by_cases hm : base < n <;> simp [hm] <;> omega

/-- Where the elements that pass come first, the border is their number. -/
theorem border_eq_of_sorted {α : Type} {test : α → Bool} {front back : List α}
    (hf : ∀ x ∈ front, test x = true) (hb : ∀ x ∈ back, test x = false) :
    border test (front ++ back) = front.length := by
  have h : ∀ i, (front ++ back)[i]?.any test = decide (i < front.length) := by
    intro i
    by_cases hi : i < front.length
    · simp [hi, List.getElem?_append_left hi, hf]
    · rw [List.getElem?_append_right (by omega)]
      by_cases hj : i - front.length < back.length
      · simp [hi, hj, hb]
      · simp [hi, hj]
  rcases Nat.eq_zero_or_pos (front ++ back).length with hzero | hpos
  · have hnil : front = [] ∧ back = [] := by simpa using List.length_eq_zero_iff.mp hzero
    simp [border, hnil, narrow]
  · exact narrow_of_border h hpos (Nat.zero_le _) (by simp)

end RowQuery.Bisection
