import RowQuery.Proofs.Page.OwnCursor

/-!
# A page and its cursors split the candidates

A page that shows a row has two cursors. The rows in front of its start cursor, the rows that it shows
and the rows behind its end cursor are all candidates, in order and without overlap, whatever bounds
the page itself was made with.

Results: `page_splits_candidates`, and with it that the flags of the page tell whether the parts in
front of it and behind it have rows.
-/

namespace RowQuery.Page

variable {ρ : Type} [Record ρ]

/-- The rows in front of a page, its own and those behind it are all rows of its query. -/
theorem page_splits_candidates {options : PageOptions} {q : Query} {rows : List ρ} {page : Page ρ}
    (h : paginate options q rows = .ok page) (hne : page.items ≠ [])
    (hexact : CursorsExact options q rows) :
    ∃ first last front back whole,
      page.info.startCursor = some first ∧ page.info.endCursor = some last ∧
      paginate options (q.unbounded.stopBefore first) rows = .ok front ∧
      paginate options (q.unbounded.startAfter last) rows = .ok back ∧
      paginate options q.unbounded rows = .ok whole ∧
      front.items ++ (page.items ++ back.items) = whole.items ∧
      (page.info.hasPrevious = true ↔ front.items ≠ []) ∧
      (page.info.hasNext = true ↔ back.items ≠ []) := by
  obtain ⟨front, shown, back, he, rfl⟩ := exists_between_of_paginate h
  have hshown : shown ≠ [] := by
    rintro rfl
    exact hne rfl
  obtain ⟨head, rest, hhead⟩ := List.exists_cons_of_ne_nil hshown
  obtain ⟨init, tail, htail⟩ : ∃ init tail, shown = init ++ [tail] :=
    ⟨_, _, (List.dropLast_concat_getLast hshown).symm⟩
  have hbefore : entriesOf options q rows = front ++ head :: (rest ++ back) := by
    rw [he, hhead]
    rfl
  have hafter : entriesOf options q rows = (front ++ init) ++ tail :: back := by
    rw [he, htail, List.append_assoc, List.append_assoc]
    rfl
  refine ⟨_, _, _, _, _, ?_, ?_, paginate_before_cursorAt hexact hbefore none,
    paginate_after_cursorAt hexact hafter none, paginate_unbounded options q rows, ?_,
    hasPrevious_between options _ front shown back, hasNext_between options _ front shown back⟩
  · rw [hhead]
    exact startCursor_between options _ front rest back head
  · rw [htail]
    exact endCursor_between options _ front init back tail
  · show front.map Entry.row ++ (shown.map Entry.row ++ back.map Entry.row) =
      (entriesOf options q rows).map Entry.row
    rw [he, List.map_append, List.map_append]

theorem page_splits_people :
    ∃ page first last front back whole,
      paginate .standard { oldestFirst with offset := some 1, limit := some 2 } people = .ok page ∧
      page.info.startCursor = some first ∧ page.info.endCursor = some last ∧
      paginate .standard (oldestFirst.stopBefore first) people = .ok front ∧
      paginate .standard (oldestFirst.startAfter last) people = .ok back ∧
      paginate .standard oldestFirst people = .ok whole ∧
      front.items ++ (page.items ++ back.items) = whole.items ∧
      (page.info.hasPrevious = true ↔ front.items ≠ []) ∧
      (page.info.hasNext = true ↔ back.items ≠ []) := by
  have hpage : ∃ page, paginate .standard
      { oldestFirst with offset := some 1, limit := some 2 } people = .ok page ∧ page.items ≠ [] :=
    ⟨_, rfl, List.cons_ne_nil _ _⟩
  obtain ⟨page, h, hne⟩ := hpage
  obtain ⟨first, last, front, back, whole, hsplit⟩ :=
    page_splits_candidates h hne (by decide +kernel)
  exact ⟨page, first, last, front, back, whole, h, hsplit⟩

end RowQuery.Page
