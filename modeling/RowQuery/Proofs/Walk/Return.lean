import RowQuery.Proofs.Walk.Basic

/-!
# A step onward and back

Behind a page stands the first row of the page that follows it, however many rows that one has. In front
of this row stands the last row of the page, so as many rows as the page has, taken from there backward,
are the page again: its rows, its flags and its cursors.

Results:
* `return_between`: the step back from the page that follows the middle one of three parts.
* `paginate_return`: the step back to the first rows behind a cursor, or to the first rows of all.
-/

namespace RowQuery.Walk

open Page

variable {ρ : Type} [Record ρ] {options : PageOptions} {q : Query} {rows : List ρ}

/-- The first rows behind a cursor are the middle one of three parts of the candidates, the last two of
which are all that stands behind the cursor. -/
theorem exists_parts_of_first {after : Option Cursor} {n : Option Nat} {page : Page ρ}
    (h : paginate options { q.unbounded with after := after, first := n } rows = .ok page) :
    ∃ front behind, entriesOf options q rows = front ++ behind ∧
      page = between options (keysOf options q) front (Window.firstRows n behind)
        (Window.beyondFirst n behind) := by
  cases after with
  | none =>
    exact ⟨[], _, rfl, Except.ok.inj (h.symm.trans (paginate_first_all options q rows n))⟩
  | some c =>
    obtain ⟨w, hw⟩ := exists_window_of_paginate h
    obtain ⟨place, hplace, _⟩ := Outcome.bind_eq_ok.mp hw
    have hplace : placeAfter options.strategy (keysOf options q) (entriesOf options q rows) c =
        .ok place := Outcome.mapError_eq_ok.mp hplace
    have hlength : ((entriesOf options q rows).take place).length = place := by
      rw [List.length_take, Nat.min_eq_left (placeBy_le_length hplace)]
    have hsplit := (List.take_append_drop place (entriesOf options q rows)).symm
    have hpage := paginate_after (by rw [hlength, hplace]) hsplit n
    exact ⟨_, _, hsplit, Except.ok.inj (h.symm.trans hpage)⟩

/-- From the rows that follow a part of the candidates, a step back of the part's length leads to the
part. -/
theorem return_between (hexact : CursorsExact options q rows) {front shown back : List (Entry ρ)}
    (he : entriesOf options q rows = front ++ (shown ++ back)) (hshown : shown ≠ [])
    (hback : back ≠ []) {j : Nat} (hj : 0 < j) :
    ∃ onward next backward,
      q.unbounded.onward (between options (keysOf options q) front shown back).info j =
        some (.ok onward) ∧
      paginate options onward rows = .ok next ∧ next.items ≠ [] ∧
      q.unbounded.backward next.info shown.length = some (.ok backward) ∧
      paginate options backward rows =
        .ok (between options (keysOf options q) front shown back) := by
  obtain ⟨init, last, rfl⟩ : ∃ init last, shown = init ++ [last] :=
    ⟨_, _, (List.dropLast_concat_getLast hshown).symm⟩
  obtain ⟨e, behind, rfl⟩ := List.exists_cons_of_ne_nil hback
  obtain ⟨j, rfl⟩ : ∃ i, j = i + 1 := ⟨j - 1, (Nat.sub_add_cancel hj).symm⟩
  have hlast : entriesOf options q rows = (front ++ init) ++ last :: (e :: behind) := by
    rw [he, List.append_assoc, List.append_assoc]
    rfl
  have hfirst : entriesOf options q rows = (front ++ (init ++ [last])) ++ e :: behind :=
    he.trans (List.append_assoc _ _ _).symm
  -- The page that follows starts with `e`, and the rows in front of `e` end with the part.
  have hnext : paginate options
      { q.unbounded with
        after := some (cursorAt options.strategy (keysOf options q) (front ++ init).length last)
        first := some (j + 1) } rows =
      .ok (between options (keysOf options q) (front ++ (init ++ [last])) (e :: behind.take j)
        (behind.drop j)) := by
    rw [paginate_after_cursorAt hexact hlast (some (j + 1)), List.append_assoc]
    rfl
  have hreturn := paginate_before_cursorAt hexact hfirst (some (init ++ [last]).length)
  rw [Window.beforeLast_append_right, Window.lastRows_append_right] at hreturn
  exact ⟨_, _, _, next_forward (endCursor_between options _ front init _ last) (Nat.succ_pos j),
    hnext, List.cons_ne_nil _ _,
    next_backward (startCursor_between options _ _ _ _ e) (List.length_pos_iff.mpr hshown), hreturn⟩

/-- From a page of the first rows behind a cursor, or of the first rows of all, a step onward to a page of
any size and a step back of its own size lead to the same page. -/
theorem paginate_return (hexact : CursorsExact options q rows) {after : Option Cursor} {k j : Nat}
    {page : Page ρ} (hk : 0 < k) (hj : 0 < j)
    (h : paginate options { q.unbounded with after := after, first := some k } rows = .ok page)
    (hnext : page.info.hasNext = true) :
    ∃ onward next backward,
      q.unbounded.onward page.info j = some (.ok onward) ∧
      paginate options onward rows = .ok next ∧ next.items ≠ [] ∧
      q.unbounded.backward next.info k = some (.ok backward) ∧
      paginate options backward rows = .ok page := by
  obtain ⟨front, behind, he, rfl⟩ := exists_parts_of_first h
  have hback : Window.beyondFirst (some k) behind ≠ [] := by
    intro hnone
    exact (hasNext_between options _ _ _ _).mp hnext (congrArg (List.map Entry.row) hnone)
  have hsplit : entriesOf options q rows =
      front ++ (Window.firstRows (some k) behind ++ Window.beyondFirst (some k) behind) := by
    rw [Window.firstRows_append_beyondFirst, he]
  have hreturn := return_between hexact hsplit (Window.firstRows_ne_nil hk hback) hback hj
  rwa [Window.length_firstRows hback] at hreturn

theorem paginate_return_people :
    ∃ page onward next backward,
      paginate .standard { oldestFirst with after := some ⟨[("age", .int 30)]⟩, first := some 1 }
        people = .ok page ∧
      oldestFirst.onward page.info 5 = some (.ok onward) ∧
      paginate .standard onward people = .ok next ∧ next.items ≠ [] ∧
      oldestFirst.backward next.info 1 = some (.ok backward) ∧
      paginate .standard backward people = .ok page := by
  have hexact : CursorsExact .standard oldestFirst people := by decide +kernel
  have hpage : ∃ page, paginate .standard
      { oldestFirst with after := some ⟨[("age", .int 30)]⟩, first := some 1 } people = .ok page ∧
        page.info.hasNext = true :=
    ⟨_, rfl, by decide +kernel⟩
  obtain ⟨page, h, hnext⟩ := hpage
  obtain ⟨onward, next, backward, hreturn⟩ :=
    paginate_return hexact Nat.one_pos (Nat.succ_pos 4) h hnext
  exact ⟨page, onward, next, backward, h, hreturn⟩

end RowQuery.Walk
