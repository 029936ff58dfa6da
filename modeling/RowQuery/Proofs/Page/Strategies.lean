import RowQuery.Proofs.Page.OwnCursor

/-!
# Recorded values and recorded places

A cursor marks a row by its values or by its place. As long as the rows stay the same, it makes no
difference which: where values tell the rows apart, both cursors of a row bound a window at that row, so
the pages between two rows are the same, and the cursors of the pages mark the same rows again.

Results:
* `cursorWindow_placeCursor`: the cursors of two places leave the places strictly between them.
* `strategies_agree`: the pages of both strategies show the same, and mark the same rows.
-/

namespace RowQuery.Page

variable {ρ : Type} [Record ρ]

/-- The cursor of the candidate at a place. -/
def placeCursor (strategy : CursorStrategy) (options : PageOptions) (q : Query) (rows : List ρ)
    (place : Fin (entriesOf options q rows).length) : Cursor :=
  cursorAt strategy (keysOf options q) place ((entriesOf options q rows).get place)

/-- The window of the places strictly between two others, or empty behind the first one. -/
def placesBetween {n : Nat} (after before : Option (Fin n)) : Window :=
  let start := after.elim 0 (·.val + 1)
  ⟨start, max (before.elim n (·.val)) start⟩

variable {options : PageOptions} {q : Query} {rows : List ρ}

section Places

variable {front back : List (Entry ρ)} {e : Entry ρ}

theorem placeCursor_of_split (strategy : CursorStrategy)
    (he : entriesOf options q rows = front ++ e :: back) :
    placeCursor strategy options q rows ⟨front.length, length_front_lt he⟩ =
      cursorAt strategy (keysOf options q) front.length e :=
  congrArg (cursorAt strategy (keysOf options q) front.length) (List.getElem_of_append he rfl)

theorem exists_split (place : Fin (entriesOf options q rows).length) :
    ∃ front back, entriesOf options q rows = front ++ (entriesOf options q rows).get place :: back ∧
      front.length = place.val := by
  refine ⟨(entriesOf options q rows).take place, (entriesOf options q rows).drop (place + 1), ?_, ?_⟩
  · rw [List.get_eq_getElem, List.getElem_cons_drop, List.take_append_drop]
  · rw [List.length_take, Nat.min_eq_left (Nat.le_of_lt place.isLt)]

theorem placeBy_placeCursor {test : Ordering → Bool} {shift : Nat} (ht : IsCut test)
    (hshift : (test .eq).toNat = shift) (h : CursorsExact options q rows)
    (place : Fin (entriesOf options q rows).length) :
    placeBy test shift options.strategy (keysOf options q) (entriesOf options q rows)
      (placeCursor options.strategy options q rows place) = .ok (place.val + shift) := by
  obtain ⟨front, back, he, hplace⟩ := exists_split place
  rw [placeCursor, ← hplace]
  exact placeBy_cursorAt ht hshift h he

/-- The cursors of two places leave the places strictly between them. -/
theorem cursorWindow_placeCursor (h : CursorsExact options q rows)
    (after before : Option (Fin (entriesOf options q rows).length)) :
    cursorWindow options.strategy (keysOf options q) (entriesOf options q rows)
      (after.map (placeCursor options.strategy options q rows))
      (before.map (placeCursor options.strategy options q rows)) =
        .ok (placesBetween after before) := by
  have hstart : boundOr (placeAfter options.strategy (keysOf options q) (entriesOf options q rows)) 0
      (after.map (placeCursor options.strategy options q rows)) =
        .ok (after.elim 0 (·.val + 1)) := by
    cases after with
    | none => rfl
    | some place => exact congrArg (Except.mapError _) (placeBy_placeCursor isCut_isLE rfl h place)
  have hstop : boundOr (placeBefore options.strategy (keysOf options q) (entriesOf options q rows))
      (entriesOf options q rows).length
      (before.map (placeCursor options.strategy options q rows)) =
        .ok (before.elim (entriesOf options q rows).length (·.val)) := by
    cases before with
    | none => rfl
    | some place => exact congrArg (Except.mapError _) (placeBy_placeCursor isCut_isLT rfl h place)
  unfold cursorWindow
  rw [hstart, hstop]
  rfl

end Places

/-! ## Marked rows -/

section Marks

variable {front shown back : List (Entry ρ)}

/-- The start cursor of a page marks the first row that it shows. -/
theorem exists_startPlace (he : entriesOf options q rows = front ++ (shown ++ back)) :
    ∃ place : Option (Fin (entriesOf options q rows).length),
      shown.head? = place.map (entriesOf options q rows).get ∧
      ∀ strategy, shown.head?.map (cursorAt strategy (keysOf options q) front.length) =
        place.map (placeCursor strategy options q rows) := by
  cases shown with
  | nil => exact ⟨none, rfl, fun _ => rfl⟩
  | cons e shown =>
    refine ⟨some ⟨front.length, length_front_lt he⟩, ?_, fun strategy => ?_⟩
    · exact congrArg some (List.getElem_of_append he rfl).symm
    · exact congrArg some (placeCursor_of_split strategy he).symm

/-- The end cursor of a page marks the last row that it shows. -/
theorem exists_endPlace (he : entriesOf options q rows = front ++ (shown ++ back)) :
    ∃ place : Option (Fin (entriesOf options q rows).length),
      shown.getLast? = place.map (entriesOf options q rows).get ∧
      ∀ strategy, shown.getLast?.map
          (cursorAt strategy (keysOf options q) (front.length + shown.length - 1)) =
        place.map (placeCursor strategy options q rows) := by
  rcases List.eq_nil_or_concat shown with rfl | ⟨init, e, hlast⟩
  · exact ⟨none, rfl, fun _ => rfl⟩
  · rw [List.concat_eq_append] at hlast
    subst hlast
    have hsplit : entriesOf options q rows = (front ++ init) ++ e :: back := by
      rw [he, List.append_assoc, List.append_assoc]
      rfl
    have hplace : front.length + (init ++ [e]).length - 1 = (front ++ init).length := by
      rw [List.length_append, List.length_append]
      rfl
    refine ⟨some ⟨(front ++ init).length, length_front_lt hsplit⟩, ?_, fun strategy => ?_⟩
    · rw [List.getLast?_concat]
      exact congrArg some (List.getElem_of_append hsplit rfl).symm
    · rw [List.getLast?_concat, hplace]
      exact congrArg some (placeCursor_of_split strategy hsplit).symm

end Marks

/-! ## Both strategies -/

/-- Between the same two rows both strategies show the same page, and the cursors of the two pages mark
the same two rows, the first and the last one shown. -/
theorem strategies_agree (h : TransitiveOn Value.sortCompare (keyValues options q rows))
    (ht : TiesBroken options q rows)
    (hlength : ((passing q rows).length : Int) ≤ Int64.maxValue.toInt)
    (after before : Option (Fin (entriesOf options q rows).length)) :
    ∃ (byValues byPlaces : Page ρ) (first last : Option (Fin (entriesOf options q rows).length)),
      paginate { options with strategy := .keyset }
        { q with
          after := after.map (placeCursor .keyset options q rows)
          before := before.map (placeCursor .keyset options q rows) } rows = .ok byValues ∧
      paginate { options with strategy := .positional }
        { q with
          after := after.map (placeCursor .positional options q rows)
          before := before.map (placeCursor .positional options q rows) } rows = .ok byPlaces ∧
      byPlaces.items = byValues.items ∧
      byPlaces.info.hasNext = byValues.info.hasNext ∧
      byPlaces.info.hasPrevious = byValues.info.hasPrevious ∧
      byPlaces.info.totalCount = byValues.info.totalCount ∧
      byValues.info.startCursor = first.map (placeCursor .keyset options q rows) ∧
      byPlaces.info.startCursor = first.map (placeCursor .positional options q rows) ∧
      byValues.info.endCursor = last.map (placeCursor .keyset options q rows) ∧
      byPlaces.info.endCursor = last.map (placeCursor .positional options q rows) ∧
      byValues.items.head? = first.map (fun place => ((entriesOf options q rows).get place).row) ∧
      byValues.items.getLast? = last.map fun place => ((entriesOf options q rows).get place).row := by
  have hvalues := @cursorWindow_placeCursor ρ _ { options with strategy := .keyset } q rows ⟨h, ht⟩
    after before
  have hplaces := @cursorWindow_placeCursor ρ _ { options with strategy := .positional } q rows hlength
    after before
  obtain ⟨hle, hstop⟩ := cursorWindow_le hvalues
  obtain ⟨front, window, back, he, hshows⟩ := Window.exists_shows hle hstop
  obtain ⟨before', behind, hwindow, hcut⟩ := hshows.cut q.offset q.limit q.first q.last
  have hsplit : entriesOf options q rows = (front ++ before') ++
      (Window.cutRows q.offset q.limit q.first q.last window ++ (behind ++ back)) := by
    rw [List.append_assoc, ← List.append_assoc (Window.cutRows _ _ _ _ _),
      ← List.append_assoc before', ← hwindow]
    exact he
  obtain ⟨first, hfirst, hstartCursor⟩ := exists_startPlace hsplit
  obtain ⟨last, hlast, hendCursor⟩ := exists_endPlace hsplit
  refine ⟨_, _, first, last, paginate_eq_between hvalues hsplit hcut,
    paginate_eq_between hplaces hsplit hcut, rfl, rfl, rfl, rfl, hstartCursor _, hstartCursor _,
    hendCursor _, hendCursor _, ?_, ?_⟩
  · show (List.map Entry.row _).head? = _
    rw [List.head?_map, hfirst, Option.map_map]
    rfl
  · show (List.map Entry.row _).getLast? = _
    rw [List.getLast?_map, hlast, Option.map_map]
    rfl

theorem strategies_agree_people :
    ∃ byValues byPlaces,
      paginate .standard
        { oldestFirst with
          after := some ⟨[("age", .int 30), ("id", .int 1)]⟩
          before := some ⟨[("age", .null), ("id", .int 4)]⟩
          first := some 1 } people = .ok byValues ∧
      paginate { PageOptions.standard with strategy := .positional }
        { oldestFirst with
          after := some ⟨[("_index", .int 0)]⟩
          before := some ⟨[("_index", .int 3)]⟩
          first := some 1 } people = .ok byPlaces ∧
      byPlaces.items = byValues.items ∧
      byValues.info.startCursor = some ⟨[("age", .int 30), ("id", .int 3)]⟩ := by
  have hrun : ∃ page, paginate .standard
      { oldestFirst with
        after := some ⟨[("age", .int 30), ("id", .int 1)]⟩
        before := some ⟨[("age", .null), ("id", .int 4)]⟩
        first := some 1 } people = .ok page ∧
        page.info.startCursor = some ⟨[("age", .int 30), ("id", .int 3)]⟩ :=
    ⟨_, rfl, by decide +kernel⟩
  obtain ⟨page, hpage, hcursor⟩ := hrun
  have hlength : (entriesOf .standard oldestFirst people).length = 4 := by decide +kernel
  obtain ⟨byValues, byPlaces, _, _, hvalues, hplaces, hitems, _⟩ :=
    @strategies_agree Row _ .standard { oldestFirst with first := some 1 } people
      (by decide +kernel) (by decide +kernel) (by decide +kernel)
      (some ⟨0, Nat.lt_of_lt_of_eq (by decide) hlength.symm⟩)
      (some ⟨3, Nat.lt_of_lt_of_eq (by decide) hlength.symm⟩)
  have hsame : page = byValues := Except.ok.inj (hpage.symm.trans hvalues)
  exact ⟨page, byPlaces, hpage, hplaces, hsame ▸ hitems, hcursor⟩

end RowQuery.Page
