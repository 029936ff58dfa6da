import RowQuery.Proofs.Outcome
import RowQuery.Proofs.Page.Candidates
import RowQuery.Proofs.Page.Window

/-!
# The parts of the candidates around a page

Every page shows the middle one of three parts of the candidates. The two other parts decide its flags,
and its cursors mark the first and the last row that it shows.

Results:
* `paginate_eq_between`: the page of a query from the window of its cursors.
* `items_unbounded_perm`: without bounds the page shows the rows that pass.
* `exists_parts_of_paginate`: whatever the query, its page shows the middle of three parts.
-/

namespace RowQuery

/-- The query without cursors and counts. -/
def Query.unbounded (q : Query) : Query :=
  { q with limit := none, offset := none, after := none, before := none, first := none, last := none }

namespace Window

variable {α : Type} {w : Window} {front shown : List α}

theorem cut_first_last (h : w.Shows front shown) (first last : Option Nat) :
    w.cut none none first last = (w.first first).last last := by
  have hle : w.start ≤ w.stop := by
    rw [h.start_eq, h.stop_eq]
    exact Nat.le_add_right _ _
  have hdrop : w.drop 0 = w := by
    show (⟨min w.start w.stop, w.stop⟩ : Window) = w
    rw [Nat.min_eq_left hle]
  show (((w.drop 0).first none).first first).last last = _
  rw [hdrop]
  rfl

theorem exists_shows {xs : List α} (hle : w.start ≤ w.stop) (hlen : w.stop ≤ xs.length) :
    ∃ front shown back, xs = front ++ (shown ++ back) ∧ w.Shows front shown := by
  refine ⟨xs.take w.start, (xs.drop w.start).take w.size, xs.drop w.stop, ?_, ?_, ?_⟩
  · have hback : xs.drop w.stop = (xs.drop w.start).drop w.size := by
      rw [List.drop_drop, size, Nat.add_sub_cancel' hle]
    rw [hback, List.take_append_drop, List.take_append_drop]
  · rw [List.length_take, Nat.min_eq_left (Nat.le_trans hle hlen)]
  · show w.stop = (xs.take w.start).length + (w.slice xs).length
    rw [List.length_take, Nat.min_eq_left (Nat.le_trans hle hlen), length_slice hlen, size,
      Nat.add_sub_cancel' hle]

end Window

namespace Page

variable {ρ : Type}

/-- The page that shows the middle one of three parts of the candidates. -/
def between (options : PageOptions) (keys : List OrderKey) (front shown back : List (Entry ρ)) :
    Page ρ :=
  { items := shown.map Entry.row
    info :=
      { hasNext := !back.isEmpty
        hasPrevious := !front.isEmpty
        startCursor := shown.head?.map (cursorAt options.strategy keys front.length)
        endCursor :=
          shown.getLast?.map (cursorAt options.strategy keys (front.length + shown.length - 1))
        totalCount :=
          if options.countTotal then some (front.length + (shown.length + back.length))
          else none } }

theorem ofWindow_eq_between {w : Window} {front shown : List (Entry ρ)} (h : w.Shows front shown)
    (options : PageOptions) (keys : List OrderKey) (back : List (Entry ρ)) :
    ofWindow options keys (front ++ (shown ++ back)) w = between options keys front shown back := by
  have hnext : decide (w.stop < (front ++ (shown ++ back)).length) = !back.isEmpty := by
    rw [h.stop_eq, List.length_append, List.length_append]
    cases back <;> simp
  have hprevious : decide (0 < w.start) = !front.isEmpty := by
    rw [h.start_eq]
    cases front <;> simp
  unfold ofWindow between
  rw [h.slice_eq, hnext, hprevious, h.start_eq, h.stop_eq, List.length_append, List.length_append]

theorem startCursor_between (options : PageOptions) (keys : List OrderKey)
    (front shown back : List (Entry ρ)) (e : Entry ρ) :
    (between options keys front (e :: shown) back).info.startCursor =
      some (cursorAt options.strategy keys front.length e) := rfl

theorem endCursor_between (options : PageOptions) (keys : List OrderKey)
    (front shown back : List (Entry ρ)) (e : Entry ρ) :
    (between options keys front (shown ++ [e]) back).info.endCursor =
      some (cursorAt options.strategy keys (front ++ shown).length e) := by
  have hplace : front.length + (shown ++ [e]).length - 1 = (front ++ shown).length := by
    rw [List.length_append, List.length_append]
    rfl
  unfold between
  simp only [List.getLast?_concat, Option.map_some, hplace]

theorem hasPrevious_between (options : PageOptions) (keys : List OrderKey)
    (front shown back : List (Entry ρ)) :
    (between options keys front shown back).info.hasPrevious = true ↔ front.map Entry.row ≠ [] := by
  cases front <;> simp [between]

theorem hasNext_between (options : PageOptions) (keys : List OrderKey)
    (front shown back : List (Entry ρ)) :
    (between options keys front shown back).info.hasNext = true ↔ back.map Entry.row ≠ [] := by
  cases back <;> simp [between]

variable [Record ρ] {options : PageOptions} {q : Query} {rows : List ρ}

/-- The page of a query, once the window of its cursors is known. -/
theorem paginate_eq_ofWindow {w : Window}
    (h : cursorWindow options.strategy (keysOf options q) (entriesOf options q rows)
      q.after q.before = .ok w) :
    paginate options q rows = .ok (ofWindow options (keysOf options q) (entriesOf options q rows)
      (w.cut q.offset q.limit q.first q.last)) := by
  show (cursorWindow options.strategy (keysOf options q) (entriesOf options q rows)
    q.after q.before >>= _) = _
  rw [h]
  rfl

/-- There is no page without a window. -/
theorem paginate_eq_error {e : QueryError}
    (h : cursorWindow options.strategy (keysOf options q) (entriesOf options q rows)
      q.after q.before = .error e) : paginate options q rows = .error e := by
  show (cursorWindow options.strategy (keysOf options q) (entriesOf options q rows)
    q.after q.before >>= _) = _
  rw [h]
  rfl

theorem paginate_eq_between {w : Window} {front shown back : List (Entry ρ)}
    (h : cursorWindow options.strategy (keysOf options q) (entriesOf options q rows)
      q.after q.before = .ok w)
    (he : entriesOf options q rows = front ++ (shown ++ back))
    (hs : (w.cut q.offset q.limit q.first q.last).Shows front shown) :
    paginate options q rows = .ok (between options (keysOf options q) front shown back) := by
  rw [paginate_eq_ofWindow h, he, ofWindow_eq_between hs]

/-- The first rows of a window. -/
theorem paginate_first {after before : Option Cursor} {w : Window} {front shown back : List (Entry ρ)}
    (h : cursorWindow options.strategy (keysOf options q) (entriesOf options q rows) after before =
      .ok w)
    (he : entriesOf options q rows = front ++ (shown ++ back)) (hs : w.Shows front shown)
    (n : Option Nat) :
    paginate options { q.unbounded with after := after, before := before, first := n } rows =
      .ok (between options (keysOf options q) front (Window.firstRows n shown)
        (Window.beyondFirst n shown ++ back)) := by
  refine paginate_eq_between h ?_ ?_
  · rw [← List.append_assoc (Window.firstRows n shown), Window.firstRows_append_beyondFirst]
    exact he
  · show (w.cut none none n none).Shows _ _
    rw [Window.cut_first_last hs]
    exact hs.first n

/-- The last rows of a window. -/
theorem paginate_last {after before : Option Cursor} {w : Window} {front shown back : List (Entry ρ)}
    (h : cursorWindow options.strategy (keysOf options q) (entriesOf options q rows) after before =
      .ok w)
    (he : entriesOf options q rows = front ++ (shown ++ back)) (hs : w.Shows front shown)
    (n : Option Nat) :
    paginate options { q.unbounded with after := after, before := before, last := n } rows =
      .ok (between options (keysOf options q) (front ++ Window.beforeLast n shown)
        (Window.lastRows n shown) back) := by
  refine paginate_eq_between h ?_ ?_
  · rw [List.append_assoc, ← List.append_assoc (Window.beforeLast n shown),
      Window.beforeLast_append_lastRows]
    exact he
  · show (w.cut none none none n).Shows _ _
    rw [Window.cut_first_last hs]
    exact hs.last n

omit [Record ρ] in
theorem cursorWindow_none (strategy : CursorStrategy) (keys : List OrderKey)
    (entries : List (Entry ρ)) :
    cursorWindow strategy keys entries none none = .ok ⟨0, entries.length⟩ := by
  show Except.ok (⟨0, max entries.length 0⟩ : Window) = _
  rw [Nat.max_eq_left (Nat.zero_le _)]

omit [Record ρ] in
theorem shows_all (entries : List (Entry ρ)) : (⟨0, entries.length⟩ : Window).Shows [] entries :=
  ⟨rfl, (Nat.zero_add _).symm⟩

/-- The first of all candidates. -/
theorem paginate_first_all (options : PageOptions) (q : Query) (rows : List ρ) (n : Option Nat) :
    paginate options { q.unbounded with first := n } rows =
      .ok (between options (keysOf options q) [] (Window.firstRows n (entriesOf options q rows))
        (Window.beyondFirst n (entriesOf options q rows))) := by
  have hpage := paginate_first (cursorWindow_none options.strategy (keysOf options q) _)
    (List.append_nil _).symm (shows_all (entriesOf options q rows)) n
  rwa [List.append_nil] at hpage

/-- A query without bounds gives all candidates. -/
theorem paginate_unbounded (options : PageOptions) (q : Query) (rows : List ρ) :
    paginate options q.unbounded rows =
      .ok (between options (keysOf options q) [] (entriesOf options q rows) []) :=
  paginate_first_all options q rows none

/-- A page without bounds shows the rows that pass, all of them and nothing else. -/
theorem items_unbounded_perm {page : Page ρ} (h : paginate options q.unbounded rows = .ok page) :
    page.items.Perm (passing q rows) := by
  rw [paginate_unbounded] at h
  cases h
  exact map_row_entriesOf_perm options q rows

/-- Behind a cursor stand the candidates from its first place on. -/
theorem paginate_after {c : Cursor} {front back : List (Entry ρ)}
    (h : placeAfter options.strategy (keysOf options q) (entriesOf options q rows) c =
      .ok front.length)
    (he : entriesOf options q rows = front ++ back) (n : Option Nat) :
    paginate options { q.unbounded with after := some c, first := n } rows =
      .ok (between options (keysOf options q) front (Window.firstRows n back)
        (Window.beyondFirst n back)) := by
  have hlength : (entriesOf options q rows).length = front.length + back.length := by
    rw [he, List.length_append]
  have hwindow : cursorWindow options.strategy (keysOf options q) (entriesOf options q rows)
      (some c) none = .ok ⟨front.length, (entriesOf options q rows).length⟩ := by
    show (Except.mapError _ (placeAfter _ _ _ _) >>= _) = _
    rw [h]
    show Except.ok (⟨front.length, max _ front.length⟩ : Window) = _
    rw [Nat.max_eq_left (by rw [hlength]; exact Nat.le_add_right _ _)]
  have he' : entriesOf options q rows = front ++ (back ++ []) := by
    rw [he, List.append_nil]
  have hpage := paginate_first hwindow he' ⟨rfl, hlength⟩ n
  rwa [List.append_nil] at hpage

/-- In front of a cursor stand the candidates up to its last place. -/
theorem paginate_before {c : Cursor} {front back : List (Entry ρ)}
    (h : placeBefore options.strategy (keysOf options q) (entriesOf options q rows) c =
      .ok front.length)
    (he : entriesOf options q rows = front ++ back) (n : Option Nat) :
    paginate options { q.unbounded with before := some c, last := n } rows =
      .ok (between options (keysOf options q) (Window.beforeLast n front) (Window.lastRows n front)
        back) := by
  have hwindow : cursorWindow options.strategy (keysOf options q) (entriesOf options q rows)
      none (some c) = .ok ⟨0, front.length⟩ := by
    show (Except.mapError _ (placeBefore _ _ _ _) >>= _) = _
    rw [h]
    show Except.ok (⟨0, max front.length 0⟩ : Window) = _
    rw [Nat.max_eq_left (Nat.zero_le _)]
  have he' : entriesOf options q rows = [] ++ (front ++ back) := he
  exact paginate_last hwindow he' (shows_all front) n

/-! ## Whatever the query -/

section Bounds

omit [Record ρ]

variable {strategy : CursorStrategy} {keys : List OrderKey} {entries : List (Entry ρ)}

theorem placeBy_le_length {test : Ordering → Bool} {shift place : Nat} {c : Cursor}
    (h : placeBy test shift strategy keys entries c = .ok place) : place ≤ entries.length := by
  cases strategy with
  | keyset =>
    obtain ⟨values, _, hplace⟩ := Outcome.bind_eq_ok.mp h
    cases hplace
    exact Bisection.border_le_length _ _
  | positional =>
    obtain ⟨i, _, hplace⟩ := Outcome.bind_eq_ok.mp h
    cases hplace
    exact Nat.min_le_right _ _

theorem boundOr_le {bound : Cursor → Except CursorFault Nat} {unbounded limit place : Nat}
    {c : Option Cursor} (hb : ∀ {c place}, bound c = .ok place → place ≤ limit)
    (hu : unbounded ≤ limit) (h : boundOr bound unbounded c = .ok place) : place ≤ limit := by
  cases c with
  | none =>
    cases h
    exact hu
  | some c => exact hb (Outcome.mapError_eq_ok.mp h)

/-- The window of the cursors is a range inside the candidates. -/
theorem cursorWindow_le {after before : Option Cursor} {w : Window}
    (h : cursorWindow strategy keys entries after before = .ok w) :
    w.start ≤ w.stop ∧ w.stop ≤ entries.length := by
  obtain ⟨start, hstart, h⟩ := Outcome.bind_eq_ok.mp h
  obtain ⟨stop, hstop, h⟩ := Outcome.bind_eq_ok.mp h
  cases h
  have hstart := boundOr_le placeBy_le_length (Nat.zero_le _) hstart
  have hstop := boundOr_le placeBy_le_length (Nat.le_refl _) hstop
  exact ⟨Nat.le_max_right _ _, Nat.max_le.mpr ⟨hstop, hstart⟩⟩

end Bounds

theorem exists_window_of_paginate {page : Page ρ} (h : paginate options q rows = .ok page) :
    ∃ w, cursorWindow options.strategy (keysOf options q) (entriesOf options q rows)
      q.after q.before = .ok w := by
  obtain ⟨w, hw, _⟩ := Outcome.bind_eq_ok.mp h
  exact ⟨w, hw⟩

/-- The page of a query shows, of the candidates in the window of its cursors, those that its counts
leave. -/
theorem exists_parts_of_paginate {page : Page ρ} (h : paginate options q rows = .ok page) :
    ∃ w front shown back,
      cursorWindow options.strategy (keysOf options q) (entriesOf options q rows)
        q.after q.before = .ok w ∧
      entriesOf options q rows = front ++ (shown ++ back) ∧ w.Shows front shown ∧
      ∃ before behind,
        shown = before ++ (Window.cutRows q.offset q.limit q.first q.last shown ++ behind) ∧
        page = between options (keysOf options q) (front ++ before)
          (Window.cutRows q.offset q.limit q.first q.last shown) (behind ++ back) := by
  obtain ⟨w, hw⟩ := exists_window_of_paginate h
  obtain ⟨hle, hlen⟩ := cursorWindow_le hw
  obtain ⟨front, shown, back, he, hs⟩ := Window.exists_shows hle hlen
  obtain ⟨before, behind, hshown, hcut⟩ := hs.cut q.offset q.limit q.first q.last
  refine ⟨w, front, shown, back, hw, he, hs, before, behind, hshown, ?_⟩
  have he' : entriesOf options q rows = (front ++ before) ++
      (Window.cutRows q.offset q.limit q.first q.last shown ++ (behind ++ back)) := by
    rw [List.append_assoc, ← List.append_assoc (Window.cutRows _ _ _ _ _), ← List.append_assoc before,
      ← hshown, he]
  rw [paginate_eq_between hw he' hcut] at h
  exact (Except.ok.inj h).symm

/-- Every page shows the middle of three parts of the candidates. -/
theorem exists_between_of_paginate {page : Page ρ} (h : paginate options q rows = .ok page) :
    ∃ front shown back, entriesOf options q rows = front ++ (shown ++ back) ∧
      page = between options (keysOf options q) front shown back := by
  obtain ⟨w, front, shown, back, _, he, _, before, behind, hshown, hpage⟩ :=
    exists_parts_of_paginate h
  refine ⟨front ++ before, _, behind ++ back, ?_, hpage⟩
  rw [List.append_assoc, ← List.append_assoc (Window.cutRows _ _ _ _ _), ← List.append_assoc before,
    ← hshown, he]

end Page

end RowQuery
