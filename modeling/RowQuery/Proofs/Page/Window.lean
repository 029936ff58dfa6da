import RowQuery.Bisection
import RowQuery.Page.Window

/-!
# Windows as parts of lists

A window of a list stands behind the rows in front of it and holds the rows that it shows. Cutting a
window cuts the rows that it shows, and leaves those that it no longer shows in front of it or behind.

Where the elements that pass a test come first, the border found by bisection stands behind them, so
it splits a list into the elements that pass and those that do not.

Results:
* `Shows.cut`: a window that is cut shows the rows left after dropping and taking.
* `Shows.slice_eq`: the slice of a window is what it shows.
* `size_cut_le`: a window has at most as many places as each of the counts that cut it.
* `isBorder_border`: the border stands behind the elements that pass.
* `border_reverse`: from the other end, the border of the opposite test is the same place.
* `slice_eq_filter`: two borders enclose what passes one test and not the other.
-/

namespace RowQuery

namespace Window

variable {α : Type}

/-- The first rows, or all of them without a count. -/
def firstRows : Option Nat → List α → List α
  | some n, xs => xs.take n
  | none, xs => xs

/-- The rows behind the first ones. -/
def beyondFirst : Option Nat → List α → List α
  | some n, xs => xs.drop n
  | none, _ => []

/-- The last rows, or all of them without a count. -/
def lastRows : Option Nat → List α → List α
  | some n, xs => xs.drop (xs.length - n)
  | none, xs => xs

/-- The rows in front of the last ones. -/
def beforeLast : Option Nat → List α → List α
  | some n, xs => xs.take (xs.length - n)
  | none, _ => []

theorem firstRows_append_beyondFirst (n : Option Nat) (xs : List α) :
    firstRows n xs ++ beyondFirst n xs = xs := by
  cases n with
  | none => exact List.append_nil xs
  | some n => exact List.take_append_drop n xs

theorem beforeLast_append_lastRows (n : Option Nat) (xs : List α) :
    beforeLast n xs ++ lastRows n xs = xs := by
  cases n with
  | none => rfl
  | some n => exact List.take_append_drop _ xs

/-- The rows left by the counts of a query. -/
def cutRows (offset limit first last : Option Nat) (xs : List α) : List α :=
  lastRows last (firstRows first (firstRows limit (xs.drop (offset.getD 0))))

theorem firstRows_ne_nil {n : Nat} {xs : List α} (hn : 0 < n) (h : beyondFirst (some n) xs ≠ []) :
    firstRows (some n) xs ≠ [] := by
  cases xs with
  | nil => exact absurd List.drop_nil h
  | cons x xs =>
    cases n with
    | zero => exact absurd hn (Nat.lt_irrefl 0)
    | succ n => exact List.cons_ne_nil _ _

theorem length_beyondFirst_lt {n : Nat} {xs : List α} (hn : 0 < n) (h : xs ≠ []) :
    (beyondFirst (some n) xs).length < xs.length := by
  show (xs.drop n).length < xs.length
  rw [List.length_drop]
  exact Nat.sub_lt (List.length_pos_iff.mpr h) hn

theorem length_beforeLast_lt {n : Nat} {xs : List α} (hn : 0 < n) (h : xs ≠ []) :
    (beforeLast (some n) xs).length < xs.length := by
  show (xs.take (xs.length - n)).length < xs.length
  rw [List.length_take]
  exact Nat.lt_of_le_of_lt (Nat.min_le_left _ _) (Nat.sub_lt (List.length_pos_iff.mpr h) hn)

theorem lastRows_ne_nil {n : Nat} {xs : List α} (hn : 0 < n) (h : beforeLast (some n) xs ≠ []) :
    lastRows (some n) xs ≠ [] := by
  have hxs : xs ≠ [] := by
    rintro rfl
    exact h List.take_nil
  intro hnone
  -- The rows in front of the last ones would be all rows.
  have hall := beforeLast_append_lastRows (some n) xs
  rw [hnone, List.append_nil] at hall
  exact Nat.ne_of_lt (length_beforeLast_lt hn hxs) (congrArg List.length hall)

/-- With more rows beyond them, the first rows are as many as asked for. -/
theorem length_firstRows {n : Nat} {xs : List α} (h : beyondFirst (some n) xs ≠ []) :
    (firstRows (some n) xs).length = n := by
  have hlt : n < xs.length := Nat.lt_of_not_le fun hle => h (List.drop_eq_nil_of_le hle)
  show (xs.take n).length = n
  rw [List.length_take, Nat.min_eq_left (Nat.le_of_lt hlt)]

theorem lastRows_append_right (xs ys : List α) : lastRows (some ys.length) (xs ++ ys) = ys := by
  show (xs ++ ys).drop ((xs ++ ys).length - ys.length) = ys
  rw [List.length_append, Nat.add_sub_cancel, List.drop_left]

theorem beforeLast_append_right (xs ys : List α) : beforeLast (some ys.length) (xs ++ ys) = xs := by
  show (xs ++ ys).take ((xs ++ ys).length - ys.length) = xs
  rw [List.length_append, Nat.add_sub_cancel, List.take_left]

/-- The first rows from the end are the last rows. -/
theorem firstRows_reverse (n : Option Nat) (xs : List α) :
    firstRows n xs.reverse = (lastRows n xs).reverse := by
  cases n with
  | none => rfl
  | some n => exact List.take_reverse

theorem firstRows_map {β : Type} (f : α → β) (n : Option Nat) (xs : List α) :
    firstRows n (xs.map f) = (firstRows n xs).map f := by
  cases n with
  | none => rfl
  | some n => exact List.map_take.symm

theorem lastRows_map {β : Type} (f : α → β) (n : Option Nat) (xs : List α) :
    lastRows n (xs.map f) = (lastRows n xs).map f := by
  cases n with
  | none => rfl
  | some n =>
    show (xs.map f).drop ((xs.map f).length - n) = _
    rw [List.length_map]
    exact List.map_drop.symm

theorem cutRows_map {β : Type} (f : α → β) (offset limit first last : Option Nat) (xs : List α) :
    cutRows offset limit first last (xs.map f) = (cutRows offset limit first last xs).map f := by
  unfold cutRows
  rw [← List.map_drop, firstRows_map, firstRows_map, lastRows_map]

theorem slice_map {β : Type} (f : α → β) (w : Window) (xs : List α) :
    w.slice (xs.map f) = (w.slice xs).map f := by
  unfold slice
  rw [← List.map_drop, ← List.map_take]

theorem size_first_le (w : Window) (count : Option Nat) : (w.first count).size ≤ w.size := by
  cases count with
  | none => exact Nat.le_refl _
  | some n => exact Nat.sub_le_sub_right (Nat.min_le_left _ _) _

theorem size_last_le (w : Window) (count : Option Nat) : (w.last count).size ≤ w.size := by
  cases count with
  | none => exact Nat.le_refl _
  | some n => exact Nat.sub_le_sub_left (Nat.le_max_left _ _) _

theorem size_first_some_le (w : Window) (n : Nat) : (w.first (some n)).size ≤ n := by
  show min w.stop (w.start + n) - w.start ≤ n
  exact Nat.sub_le_iff_le_add'.mpr (Nat.min_le_right _ _)

theorem size_last_some_le (w : Window) (n : Nat) : (w.last (some n)).size ≤ n := by
  show w.stop - max w.start (w.stop - n) ≤ n
  calc
    w.stop - max w.start (w.stop - n) ≤ w.stop - (w.stop - n) :=
      Nat.sub_le_sub_left (Nat.le_max_right _ _) _
    _ ≤ n := Nat.sub_le_iff_le_add'.mpr (Nat.le_add_of_sub_le (Nat.le_refl _))

/-- A window that is cut has at most as many places as each of the counts. -/
theorem size_cut_le (w : Window) (offset limit first last : Option Nat) :
    ∀ count ∈ [limit, first, last], ∀ n ∈ count, (w.cut offset limit first last).size ≤ n := by
  have hlast := size_last_le (((w.drop (offset.getD 0)).first limit).first first) last
  have hfirst := size_first_le ((w.drop (offset.getD 0)).first limit) first
  simp only [List.forall_mem_cons]
  refine ⟨?_, ?_, ?_, List.forall_mem_nil _⟩
  · rintro n rfl
    exact Nat.le_trans hlast (Nat.le_trans hfirst (size_first_some_le _ n))
  · rintro n rfl
    exact Nat.le_trans hlast (size_first_some_le _ n)
  · rintro n rfl
    exact size_last_some_le _ n

theorem length_slice {w : Window} {xs : List α} (hstop : w.stop ≤ xs.length) :
    (w.slice xs).length = w.size := by
  unfold slice size
  rw [List.length_take, List.length_drop, Nat.min_eq_left (Nat.sub_le_sub_right hstop _)]

/-- A window without places shows nothing. -/
theorem slice_eq_nil {w : Window} (h : w.stop ≤ w.start) (xs : List α) : w.slice xs = [] := by
  unfold slice size
  rw [Nat.sub_eq_zero_of_le h, List.take_zero]

/-- A window with places shows the row at its first place first. -/
theorem head?_slice {w : Window} (h : w.start < w.stop) (xs : List α) :
    (w.slice xs).head? = xs[w.start]? := by
  have hsize : w.size ≠ 0 := Nat.ne_of_gt (Nat.sub_pos_of_lt h)
  unfold slice
  rw [List.head?_take, if_neg hsize, List.head?_drop]

/-- A window with places shows the row in front of its end last. -/
theorem getLast?_slice {w : Window} {xs : List α} (h : w.start < w.stop)
    (hstop : w.stop ≤ xs.length) : (w.slice xs).getLast? = xs[w.stop - 1]? := by
  have hsize : 0 < w.size := Nat.sub_pos_of_lt h
  have hplace : w.start + (w.size - 1) = w.stop - 1 := by
    rw [← Nat.add_sub_assoc hsize, size, Nat.add_sub_cancel' (Nat.le_of_lt h)]
  rw [List.getLast?_eq_getElem?, length_slice hstop]
  unfold slice
  rw [List.getElem?_take_of_lt (Nat.sub_one_lt_of_lt hsize), List.getElem?_drop, hplace]

/-- A window shows some rows behind others. -/
structure Shows (w : Window) (front shown : List α) : Prop where
  start_eq : w.start = front.length
  stop_eq : w.stop = front.length + shown.length

namespace Shows

variable {w : Window} {front shown : List α}

theorem slice_eq (h : w.Shows front shown) (back : List α) :
    w.slice (front ++ (shown ++ back)) = shown := by
  unfold slice size
  rw [h.start_eq, h.stop_eq, List.drop_left, Nat.add_sub_cancel_left, List.take_left]

theorem drop (h : w.Shows front shown) (n : Nat) :
    (w.drop n).Shows (front ++ shown.take n) (shown.drop n) := by
  obtain ⟨hstart, hstop⟩ := h
  constructor
  · show min (w.start + n) w.stop = _
    rw [List.length_append, List.length_take, hstart, hstop]
    exact Nat.add_min_add_left _ _ _
  · show w.stop = _
    rw [← List.length_append, List.append_assoc, List.take_append_drop, List.length_append, hstop]

theorem first (h : w.Shows front shown) (n : Option Nat) :
    (w.first n).Shows front (firstRows n shown) := by
  obtain ⟨hstart, hstop⟩ := h
  cases n with
  | none => exact ⟨hstart, hstop⟩
  | some n =>
    refine ⟨hstart, ?_⟩
    show min w.stop (w.start + n) = front.length + (shown.take n).length
    rw [List.length_take, hstart, hstop, Nat.min_comm]
    exact Nat.add_min_add_left _ _ _

theorem last (h : w.Shows front shown) (n : Option Nat) :
    (w.last n).Shows (front ++ beforeLast n shown) (lastRows n shown) := by
  obtain ⟨hstart, hstop⟩ := h
  constructor
  · cases n with
    | none => rw [beforeLast, List.append_nil, ← hstart, Window.last]
    | some n =>
      show max w.start (w.stop - n) = (front ++ shown.take _).length
      rw [List.length_append, List.length_take, hstart, hstop]
      omega
  · rw [← List.length_append, List.append_assoc, beforeLast_append_lastRows, List.length_append,
      stop_last, hstop]

/-- A window that is cut shows the rows left by the counts. -/
theorem cut (h : w.Shows front shown) (offset limit first last : Option Nat) :
    ∃ before behind, shown = before ++ (cutRows offset limit first last shown ++ behind) ∧
      (w.cut offset limit first last).Shows (front ++ before)
        (cutRows offset limit first last shown) := by
  have hcut := (((h.drop (offset.getD 0)).first limit).first first).last last
  rw [List.append_assoc] at hcut
  let dropped := shown.drop (offset.getD 0)
  let limited := firstRows limit dropped
  refine ⟨_, beyondFirst first limited ++ beyondFirst limit dropped, ?_, hcut⟩
  calc
    shown = shown.take (offset.getD 0) ++ dropped := (List.take_append_drop _ shown).symm
    _ = shown.take (offset.getD 0) ++ (firstRows first limited ++ (beyondFirst first limited ++
          beyondFirst limit dropped)) := by
      rw [← List.append_assoc (firstRows first limited), firstRows_append_beyondFirst,
        firstRows_append_beyondFirst]
    _ = _ := by
      rw [cutRows, List.append_assoc, ← List.append_assoc (beforeLast last _),
        beforeLast_append_lastRows]

end Shows

end Window

namespace Bisection

variable {α : Type} {test : α → Bool}

theorem filter_append_filter_not {xs : List α}
    (h : xs.Pairwise fun a b => test b = true → test a = true) :
    xs.filter test ++ xs.filter (fun x => !test x) = xs := by
  induction xs with
  | nil => rfl
  | cons x xs ih =>
    obtain ⟨hx, hxs⟩ := List.pairwise_cons.mp h
    cases htest : test x with
    | true =>
      rw [List.filter_cons_of_pos htest, List.filter_cons_of_neg (by simp [htest]),
        List.cons_append, ih hxs]
    | false =>
      -- No element passes behind one that does not.
      have hnone : xs.filter test = [] := by
        rw [List.filter_eq_nil_iff]
        intro y hy hpass
        exact absurd (hx y hy hpass) (by simp [htest])
      rw [List.filter_cons_of_neg (by simp [htest]), List.filter_cons_of_pos (by simp [htest]),
        hnone, List.nil_append]
      rw [hnone, List.nil_append] at ih
      rw [ih hxs]

/-- The elements that pass a test are those in front of a place. -/
def IsBorder (test : α → Bool) (n : Nat) (xs : List α) : Prop :=
  ∃ front back, xs = front ++ back ∧ front.length = n ∧ (∀ x ∈ front, test x = true) ∧
    ∀ x ∈ back, test x = false

theorem isBorder_border {xs : List α} (h : xs.Pairwise fun a b => test b = true → test a = true) :
    IsBorder test (border test xs) xs := by
  have hfront : ∀ x ∈ xs.filter test, test x = true := by
    intro x hx
    exact (List.mem_filter.mp hx).2
  have hback : ∀ x ∈ xs.filter (fun x => !test x), test x = false := by
    intro x hx
    simpa using (List.mem_filter.mp hx).2
  have hborder := border_eq_of_sorted hfront hback
  rw [filter_append_filter_not h] at hborder
  exact ⟨_, _, (filter_append_filter_not h).symm, hborder.symm, hfront, hback⟩

/-- On the reversed list the border of the opposite test leaves as many elements behind it. -/
theorem border_reverse {other : α → Bool} {xs : List α}
    (h : xs.Pairwise fun a b => test b = true → test a = true)
    (hother : ∀ x ∈ xs, other x = !test x) :
    border other xs.reverse = xs.length - border test xs := by
  obtain ⟨front, back, rfl, hborder, hfront, hback⟩ := isBorder_border h
  have hpass : ∀ x ∈ back.reverse, other x = true := by
    intro x hx
    have hx := List.mem_reverse.mp hx
    rw [hother x (List.mem_append_right front hx), hback x hx]
    rfl
  have hfail : ∀ x ∈ front.reverse, other x = false := by
    intro x hx
    have hx := List.mem_reverse.mp hx
    rw [hother x (List.mem_append_left back hx), hfront x hx]
    rfl
  rw [← hborder, List.reverse_append, border_eq_of_sorted hpass hfail, List.length_reverse,
    List.length_append, Nat.add_sub_cancel_left]

theorem isBorder_none (xs : List α) : IsBorder (fun _ => false) 0 xs :=
  ⟨[], xs, rfl, rfl, fun _ hx => absurd hx List.not_mem_nil, fun _ _ => rfl⟩

theorem isBorder_all (xs : List α) : IsBorder (fun _ => true) xs.length xs :=
  ⟨xs, [], (List.append_nil xs).symm, rfl, fun _ _ => rfl, fun _ hx => absurd hx List.not_mem_nil⟩

theorem isBorder_zipIdx (n : Nat) (xs : List α) :
    IsBorder (fun p : α × Nat => decide (p.2 < n)) (min n xs.length) xs.zipIdx := by
  have hsplit : xs.zipIdx = (xs.take n).zipIdx ++ (xs.drop n).zipIdx (xs.take n).length := by
    have happend := @List.zipIdx_append _ (xs.take n) (xs.drop n) 0
    rwa [List.take_append_drop, Nat.zero_add] at happend
  refine ⟨_, _, hsplit, by rw [List.length_zipIdx, List.length_take], ?_, ?_⟩
  · intro p hp
    have hlt := List.snd_lt_of_mem_zipIdx hp
    rw [List.length_take] at hlt
    exact decide_eq_true (Nat.lt_of_lt_of_le hlt (by omega))
  · intro p hp
    have hle := List.le_snd_of_mem_zipIdx hp
    have hlt := List.snd_lt_of_mem_zipIdx hp
    rw [List.length_take] at hle
    rw [List.length_take, List.length_drop] at hlt
    exact decide_eq_false (by omega)

/-- Two borders enclose the elements that pass one test and not the other, also if they cross. -/
theorem slice_eq_filter {p q : α → Bool} {s t : Nat} {xs : List α} (hp : IsBorder p s xs)
    (hq : IsBorder q t xs) :
    (⟨s, max t s⟩ : Window).slice xs = xs.filter fun x => !p x && q x := by
  obtain ⟨front, back, rfl, rfl, hfront, hback⟩ := hp
  obtain ⟨front', back', he, rfl, hfront', hback'⟩ := hq
  rcases List.append_eq_append_iff.mp he with ⟨shown, rfl, rfl⟩ | ⟨crossed, rfl, rfl⟩
  · have hs : (⟨front.length, max (front ++ shown).length front.length⟩ : Window).Shows front shown := by
      refine ⟨rfl, ?_⟩
      rw [List.length_append]
      exact Nat.max_eq_left (Nat.le_add_right _ _)
    have h₁ : front.filter (fun x => !p x && q x) = [] := by
      rw [List.filter_eq_nil_iff]
      intro x hx
      simp [hfront x hx]
    have h₂ : shown.filter (fun x => !p x && q x) = shown := by
      rw [List.filter_eq_self]
      intro x hx
      simp [hback x (List.mem_append_left _ hx), hfront' x (List.mem_append_right _ hx)]
    have h₃ : back'.filter (fun x => !p x && q x) = [] := by
      rw [List.filter_eq_nil_iff]
      intro x hx
      simp [hback' x hx]
    rw [hs.slice_eq, List.filter_append, List.filter_append, h₁, h₂, h₃, List.nil_append,
      List.append_nil]
  · have hmax : max front'.length (front' ++ crossed).length = (front' ++ crossed).length := by
      rw [List.length_append]
      exact Nat.max_eq_right (Nat.le_add_right _ _)
    have hs : (⟨(front' ++ crossed).length, max front'.length (front' ++ crossed).length⟩ :
        Window).Shows (front' ++ crossed) [] := ⟨rfl, hmax⟩
    have h₁ : (front' ++ crossed).filter (fun x => !p x && q x) = [] := by
      rw [List.filter_eq_nil_iff]
      intro x hx
      simp [hfront x hx]
    have h₂ : back.filter (fun x => !p x && q x) = [] := by
      rw [List.filter_eq_nil_iff]
      intro x hx
      simp [hback' x (List.mem_append_right _ hx)]
    have hslice := hs.slice_eq back
    rw [List.nil_append] at hslice
    rw [hslice, List.filter_append, h₁, h₂, List.nil_append]

theorem narrow_lt (passes : Nat → Bool) {base size : Nat} (h : 0 < size) :
    narrow passes base size < base + size := by
  fun_induction narrow passes base size with
  | case1 base size hlt half ih =>
    have hhalf : half = size / 2 := rfl
    refine Nat.lt_of_lt_of_le (ih (by omega)) ?_
    split <;> omega
  | case2 base size hlt => exact Nat.lt_add_of_pos_right h

/-- Whether or not the elements that pass come first, the border lies in the list. -/
theorem border_le_length (test : α → Bool) (xs : List α) : border test xs ≤ xs.length := by
  rcases Nat.eq_zero_or_pos xs.length with hzero | hpos
  · rw [List.length_eq_zero_iff.mp hzero]
    simp [border, narrow]
  · have hlt : narrow (fun i => xs[i]?.any test) 0 xs.length < 0 + xs.length := narrow_lt _ hpos
    rw [Nat.zero_add] at hlt
    simp only [border]
    split
    · exact hlt
    · exact Nat.le_of_lt hlt

end Bisection

end RowQuery
