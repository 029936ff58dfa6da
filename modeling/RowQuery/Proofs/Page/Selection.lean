import RowQuery.Proofs.Page.Parts

/-!
# The rows of a page, said plainly

The rows that a query asks for are selected from a list of rows without regard to windows: those that
pass the filters, sorted by their keys in a stable way, those strictly between the cursors, and of these
the ones that the offset and the counts leave. A cursor of recorded values is compared with the keys
that it records, a cursor of a place with the places of the rows.

Results:
* `map_row_entriesOf`: the rows of the candidates are those that pass, sorted.
* `slice_eq_strictlyBetween`: the window of the cursors holds the rows strictly between them.
* `paginate_between_cursors`: of the rows shown without bounds, cursors leave those between them.
* `items_eq_selection`: every page holds the rows selected by its query, and counts those that pass the
  filters.
-/

namespace RowQuery.Page

variable {ρ : Type}

/-! ## The selection -/

/-- The leading values that a cursor records of a key. -/
def recordedPrefix (keys : List OrderKey) (c : Cursor) : List Value :=
  (c.leading keys).map Prod.snd

/-- The leading keys of which a cursor records values. -/
def recordedKeys (keys : List OrderKey) (c : Cursor) : List OrderKey :=
  (c.leading keys).map Prod.fst

/-- The place that a cursor records, if it records one. -/
def recordedPlace (c : Cursor) : Option Int :=
  ((c.get? positionField).bind Value.asInt?).map Int64.toInt

/-- The leading values that the cursors of a query record of its keys. -/
def cursorValues (options : PageOptions) (q : Query) : List Value :=
  (q.after.toList ++ q.before.toList).flatMap (recordedPrefix (keysOf options q))

section Selection

variable [Record ρ]

/-- Rows in the order of their keys, tied rows in the order given. -/
def inOrder (keys : List OrderKey) (rows : List ρ) : List ρ :=
  rows.mergeSort fun a b =>
    (OrderKey.compareKeys keys (OrderKey.rowKey keys a) (OrderKey.rowKey keys b)).isLE

/-- The order of a row and a cursor by the leading values that the cursor records. -/
def compareToCursor (keys : List OrderKey) (row : ρ) (c : Cursor) : Ordering :=
  OrderKey.compareKeys keys (OrderKey.rowKey keys row) (recordedPrefix keys c)

/-- The sort order is transitive on what a cursor records and what the rows hold in the same fields. -/
def TransitiveAround (options : PageOptions) (q : Query) (rows : List ρ) (c : Cursor) : Prop :=
  TransitiveOn Value.sortCompare
    (valuesIn (recordedKeys (keysOf options q) c) q rows ++ recordedPrefix (keysOf options q) c)

/-- The rows strictly between two cursors. -/
def strictlyBetween (strategy : CursorStrategy) (keys : List OrderKey) (after before : Option Cursor)
    (rows : List ρ) : List ρ :=
  match strategy with
  | .keyset =>
    rows.filter fun row =>
      after.all (fun c => compareToCursor keys row c == .gt) &&
        before.all fun c => compareToCursor keys row c == .lt
  | .positional =>
    (rows.zipIdx.filter fun p =>
      after.all (fun c => (recordedPlace c).any fun i => i < p.2) &&
        before.all fun c => (recordedPlace c).any fun i => p.2 < i).map Prod.fst

/-- The rows that a query asks for. -/
def selection (options : PageOptions) (q : Query) (rows : List ρ) : List ρ :=
  Window.cutRows q.offset q.limit q.first q.last
    (strictlyBetween options.strategy (keysOf options q) q.after q.before
      (inOrder (keysOf options q) (passing q rows)))

end Selection

/-! ## Sorted rows -/

section Sorted

variable [Record ρ] {options : PageOptions} {q : Query} {rows : List ρ}

/-- The rows of the candidates are those that pass, sorted by their keys. -/
theorem map_row_entriesOf (h : TransitiveOn Value.sortCompare (keyValues options q rows)) :
    (entriesOf options q rows).map Entry.row = inOrder (keysOf options q) (passing q rows) := by
  have htrans : TransitiveOn (compareEntries (keysOf options q))
      ((passing q rows).map (entryOf (keysOf options q))) :=
    (entriesOf_transitive h).mono fun e he => (entriesOf_perm options q rows).mem_iff.mpr he
  have hsort : StableSort.sort (StableSort.ltOf (compareEntries (keysOf options q)))
      ((passing q rows).map (entryOf (keysOf options q))) =
        ((passing q rows).map (entryOf (keysOf options q))).mergeSort
          (StableSort.leOf (compareEntries (keysOf options q))) :=
    StableSort.sort_eq_mergeSort htrans
  have hmap : ((passing q rows).map (entryOf (keysOf options q))).mergeSort
      (StableSort.leOf (compareEntries (keysOf options q))) =
        (inOrder (keysOf options q) (passing q rows)).map (entryOf (keysOf options q)) :=
    (List.map_mergeSort (f := entryOf (keysOf options q)) fun _ _ _ _ => rfl).symm
  calc
    (entriesOf options q rows).map Entry.row =
        ((inOrder (keysOf options q) (passing q rows)).map (entryOf (keysOf options q))).map
          Entry.row := by
      rw [← hmap, ← hsort]
      rfl
    _ = inOrder (keysOf options q) (passing q rows) := by
      rw [List.map_map]
      exact List.map_id _

/-! ## The window of the cursors -/

theorem anchor_eq_ok {keys : List OrderKey} {c : Cursor} {values : List Value}
    (h : anchor keys c = .ok values) : values = recordedPrefix keys c := by
  unfold anchor at h
  split at h
  · cases h
  · exact (Except.ok.inj h).symm

/-- A row is compared with a cursor in the fields of which the cursor records values, and in no
others. -/
theorem compareToCursor_eq (keys : List OrderKey) (row : ρ) (c : Cursor) :
    compareToCursor keys row c = OrderKey.compareKeys (recordedKeys keys c)
      (OrderKey.rowKey (recordedKeys keys c) row) (recordedPrefix keys c) := by
  obtain ⟨back, hback⟩ := c.map_fst_leading keys
  have hlength : (recordedPrefix keys c).length = (recordedKeys keys c).length := by
    unfold recordedPrefix recordedKeys
    rw [List.length_map, List.length_map]
  have happend := OrderKey.compareKeys_append (OrderKey.length_rowKey (recordedKeys keys c) row)
    hlength back (OrderKey.rowKey back row) []
  rw [List.append_nil, ← OrderKey.rowKey_append, OrderKey.compareKeys_nil_right,
    Ordering.then_eq] at happend
  unfold recordedKeys at happend ⊢
  rw [hback] at happend
  exact happend

theorem transitiveAround_of_transitiveOn {c : Cursor} (hc : c ∈ q.after.toList ++ q.before.toList)
    (h : TransitiveOn Value.sortCompare (keyValues options q rows ++ cursorValues options q)) :
    TransitiveAround options q rows c := by
  refine h.mono (List.append_subset.mpr ⟨?_, ?_⟩)
  · refine List.subset_append_of_subset_left _ ?_
    intro v hv
    obtain ⟨row, hrow, hv⟩ := List.mem_flatMap.mp hv
    obtain ⟨k, hk, rfl⟩ := List.mem_map.mp hv
    have hmem : k ∈ keysOf options q := (c.map_fst_leading _).subset hk
    exact List.mem_flatMap.mpr ⟨row, hrow, List.mem_map_of_mem hmem⟩
  · refine List.subset_append_of_subset_right _ ?_
    intro v hv
    exact List.mem_flatMap.mpr ⟨c, hc, hv⟩

/-- The order is transitive around each cursor of a query if it is on the values of all of them and of all
keys. -/
theorem transitiveAround_cursors
    (h : TransitiveOn Value.sortCompare (keyValues options q rows ++ cursorValues options q)) :
    (∀ c ∈ q.after, TransitiveAround options q rows c) ∧
      ∀ c ∈ q.before, TransitiveAround options q rows c := by
  constructor
  · intro c hc
    exact transitiveAround_of_transitiveOn (List.mem_append_left _ (Option.mem_toList.mpr hc)) h
  · intro c hc
    exact transitiveAround_of_transitiveOn (List.mem_append_right _ (Option.mem_toList.mpr hc)) h

theorem compareKeys_recordedPrefix {e : Entry ρ} (h : e ∈ entriesOf options q rows) (c : Cursor) :
    OrderKey.compareKeys (keysOf options q) e.key (recordedPrefix (keysOf options q) c) =
      OrderKey.compareKeys (recordedKeys (keysOf options q) c)
        (OrderKey.rowKey (recordedKeys (keysOf options q) c) e.row)
        (recordedPrefix (keysOf options q) c) := by
  rw [key_eq_rowKey h]
  exact compareToCursor_eq (keysOf options q) e.row c

section Border

variable {test : Ordering → Bool} (ht : IsCut test) {c : Cursor} (h : TransitiveAround options q rows c)

include ht h

/-- In front of a candidate that passes a test against a cursor, all pass it. -/
theorem entriesOf_closed_around :
    (entriesOf options q rows).Pairwise fun a b =>
      test (OrderKey.compareKeys (keysOf options q) b.key
        (recordedPrefix (keysOf options q) c)) = true →
          test (OrderKey.compareKeys (keysOf options q) a.key
            (recordedPrefix (keysOf options q) c)) = true := by
  refine (entriesOf_closed_front ht (c.map_fst_leading _) h).imp_of_mem ?_
  intro a b ha hb hab
  rw [compareKeys_recordedPrefix ha, compareKeys_recordedPrefix hb]
  exact hab

/-- A cursor of recorded values bounds at the border of its test. -/
theorem isBorder_placeBy {shift place : Nat}
    (hplace : placeBy test shift .keyset (keysOf options q) (entriesOf options q rows) c = .ok place) :
    Bisection.IsBorder
      (fun e => test (OrderKey.compareKeys (keysOf options q) e.key
        (recordedPrefix (keysOf options q) c))) place (entriesOf options q rows) := by
  obtain ⟨values, hvalues, hborder⟩ := Outcome.bind_eq_ok.mp hplace
  cases hborder
  rw [anchor_eq_ok hvalues]
  exact Bisection.isBorder_border (entriesOf_closed_around ht h)

end Border

/-- The start of the window stands in front of the rows beyond the cursor. -/
theorem isBorder_start {start : Nat} (h : ∀ c ∈ q.after, TransitiveAround options q rows c)
    (hstart : boundOr (placeAfter .keyset (keysOf options q) (entriesOf options q rows)) 0 q.after =
      .ok start) :
    Bisection.IsBorder
      (fun e => q.after.any fun c =>
        (OrderKey.compareKeys (keysOf options q) e.key (recordedPrefix (keysOf options q) c)).isLE)
      start (entriesOf options q rows) := by
  cases hafter : q.after with
  | none =>
    rw [hafter] at hstart
    cases hstart
    exact Bisection.isBorder_none _
  | some c =>
    rw [hafter] at hstart
    exact isBorder_placeBy isCut_isLE (h c hafter) (Outcome.mapError_eq_ok.mp hstart)

theorem isBorder_stop {stop : Nat} (h : ∀ c ∈ q.before, TransitiveAround options q rows c)
    (hstop : boundOr (placeBefore .keyset (keysOf options q) (entriesOf options q rows))
      (entriesOf options q rows).length q.before = .ok stop) :
    Bisection.IsBorder
      (fun e => q.before.all fun c =>
        (OrderKey.compareKeys (keysOf options q) e.key (recordedPrefix (keysOf options q) c)).isLT)
      stop (entriesOf options q rows) := by
  cases hbefore : q.before with
  | none =>
    rw [hbefore] at hstop
    cases hstop
    exact Bisection.isBorder_all _
  | some c =>
    rw [hbefore] at hstop
    exact isBorder_placeBy isCut_isLT (h c hbefore) (Outcome.mapError_eq_ok.mp hstop)

/-- Between two cursors of recorded values stand the rows whose keys do. -/
theorem slice_keyset {w : Window} (h : ∀ c ∈ q.after, TransitiveAround options q rows c)
    (h' : ∀ c ∈ q.before, TransitiveAround options q rows c)
    (hw : cursorWindow .keyset (keysOf options q) (entriesOf options q rows) q.after q.before =
      .ok w) :
    w.slice ((entriesOf options q rows).map Entry.row) =
      strictlyBetween .keyset (keysOf options q) q.after q.before
        ((entriesOf options q rows).map Entry.row) := by
  obtain ⟨start, hstart, hw⟩ := Outcome.bind_eq_ok.mp hw
  obtain ⟨stop, hstop, hw⟩ := Outcome.bind_eq_ok.mp hw
  cases hw
  rw [Window.slice_map, Bisection.slice_eq_filter (isBorder_start h hstart) (isBorder_stop h' hstop)]
  unfold strictlyBetween
  rw [List.filter_map]
  congr 1
  refine List.filter_congr fun e he => ?_
  have hafter : (!q.after.any fun c => (compareToCursor (keysOf options q) e.row c).isLE) =
      q.after.all fun c => compareToCursor (keysOf options q) e.row c == .gt := by
    cases q.after with
    | none => rfl
    | some c =>
      show (!Ordering.isLE _) = (_ == Ordering.gt)
      cases compareToCursor (keysOf options q) e.row c <;> rfl
  have hbefore : (q.before.all fun c => (compareToCursor (keysOf options q) e.row c).isLT) =
      q.before.all fun c => compareToCursor (keysOf options q) e.row c == .lt := by
    cases q.before with
    | none => rfl
    | some c => exact Ordering.isLT_eq_beq_lt
  unfold compareToCursor at hafter hbefore
  rw [key_eq_rowKey he, hafter, hbefore]
  rfl

end Sorted

/-! ## The window of two places -/

theorem recordedPlace_of_position {c : Cursor} {place : Nat} (h : position c = .ok place) :
    recordedPlace c = some (place : Int) := by
  unfold position at h
  split at h
  · next i hget =>
    split at h
    · next hpos =>
      unfold recordedPlace
      rw [hget]
      show some i.toInt = _
      rw [← Except.ok.inj h, Int.toNat_of_nonneg hpos]
    · cases h
  · cases h

section Places

variable {keys : List OrderKey} {entries : List (Entry ρ)}

/-- A cursor of a place bounds at the border of the places in front of it, moved on. -/
theorem isBorder_placeBy_positional {test : Ordering → Bool} {shift place : Nat} {c : Cursor}
    (h : placeBy test shift .positional keys entries c = .ok place) :
    ∃ recorded : Nat, recordedPlace c = some (recorded : Int) ∧
      Bisection.IsBorder (fun p => decide (p.2 < recorded + shift)) place
        (entries.map Entry.row).zipIdx := by
  obtain ⟨recorded, hrecorded, hmin⟩ := Outcome.bind_eq_ok.mp h
  cases hmin
  refine ⟨recorded, recordedPlace_of_position hrecorded, ?_⟩
  rw [← List.length_map (f := Entry.row)]
  exact Bisection.isBorder_zipIdx (recorded + shift) (entries.map Entry.row)

theorem isBorder_startPlace {after : Option Cursor} {start : Nat}
    (hstart : boundOr (placeAfter .positional keys entries) 0 after = .ok start) :
    Bisection.IsBorder
      (fun p => !after.all fun c => (recordedPlace c).any fun i => decide (i < (p.2 : Int)))
      start (entries.map Entry.row).zipIdx := by
  cases after with
  | none =>
    cases hstart
    exact Bisection.isBorder_none _
  | some c =>
    obtain ⟨recorded, hrecorded, hborder⟩ :=
      isBorder_placeBy_positional (Outcome.mapError_eq_ok.mp hstart)
    have htest : (fun p : ρ × Nat =>
        !(some c).all fun c => (recordedPlace c).any fun i => decide (i < (p.2 : Int))) =
          fun p => decide (p.2 < recorded + 1) := by
      funext p
      show (!(recordedPlace c).any fun i => decide (i < (p.2 : Int))) = _
      rw [hrecorded]
      show (!decide ((recorded : Int) < (p.2 : Int))) = _
      rw [← decide_not]
      exact decide_eq_decide.mpr (by omega)
    rwa [htest]

theorem isBorder_stopPlace {before : Option Cursor} {stop : Nat}
    (hstop : boundOr (placeBefore .positional keys entries) entries.length before = .ok stop) :
    Bisection.IsBorder
      (fun p => before.all fun c => (recordedPlace c).any fun i => decide ((p.2 : Int) < i))
      stop (entries.map Entry.row).zipIdx := by
  cases before with
  | none =>
    cases hstop
    have hborder := Bisection.isBorder_all (entries.map Entry.row).zipIdx
    rwa [List.length_zipIdx, List.length_map] at hborder
  | some c =>
    obtain ⟨recorded, hrecorded, hborder⟩ :=
      isBorder_placeBy_positional (Outcome.mapError_eq_ok.mp hstop)
    have htest : (fun p : ρ × Nat =>
        (some c).all fun c => (recordedPlace c).any fun i => decide ((p.2 : Int) < i)) =
          fun p => decide (p.2 < recorded + 0) := by
      funext p
      show ((recordedPlace c).any fun i => decide ((p.2 : Int) < i)) = _
      rw [hrecorded]
      exact decide_eq_decide.mpr Int.ofNat_lt
    rwa [htest]

variable [Record ρ]

/-- Between two cursors of places stand the rows whose places do. -/
theorem slice_positional {after before : Option Cursor} {w : Window}
    (hw : cursorWindow .positional keys entries after before = .ok w) :
    w.slice (entries.map Entry.row) =
      strictlyBetween .positional keys after before (entries.map Entry.row) := by
  obtain ⟨start, hstart, hw⟩ := Outcome.bind_eq_ok.mp hw
  obtain ⟨stop, hstop, hw⟩ := Outcome.bind_eq_ok.mp hw
  cases hw
  have hslice := Bisection.slice_eq_filter (isBorder_startPlace hstart) (isBorder_stopPlace hstop)
  simp only [Bool.not_not] at hslice
  unfold strictlyBetween
  rw [← hslice, ← Window.slice_map, List.zipIdx_map_fst]

end Places

/-! ## The rows of a page -/

variable [Record ρ] {options : PageOptions} {q : Query} {rows : List ρ} {page : Page ρ}

/-- The window of the cursors holds the rows strictly between them. -/
theorem slice_eq_strictlyBetween {w : Window}
    (h : TransitiveOn Value.sortCompare (keyValues options q rows ++ cursorValues options q))
    (hw : cursorWindow options.strategy (keysOf options q) (entriesOf options q rows)
      q.after q.before = .ok w) :
    w.slice ((entriesOf options q rows).map Entry.row) =
      strictlyBetween options.strategy (keysOf options q) q.after q.before
        ((entriesOf options q rows).map Entry.row) := by
  cases hs : options.strategy with
  | keyset =>
    rw [hs] at hw
    obtain ⟨hafter, hbefore⟩ := transitiveAround_cursors h
    exact slice_keyset hafter hbefore hw
  | positional =>
    rw [hs] at hw
    exact slice_positional hw

section Cursors

variable (after before : Option Cursor)

theorem anchor_eq_recordedPrefix {keys : List OrderKey} {c : Cursor} (h : c.leading keys ≠ []) :
    anchor keys c = .ok (recordedPrefix keys c) := by
  unfold anchor
  split
  · next hnil => exact absurd hnil h
  · rfl

omit [Record ρ] in
/-- A cursor that records the first key sets a bound. -/
theorem exists_boundOr_placeBy (test : Ordering → Bool) (shift unbounded : Nat) {keys : List OrderKey}
    (entries : List (Entry ρ)) {c : Option Cursor} (h : ∀ d ∈ c, d.leading keys ≠ []) :
    ∃ place, boundOr (placeBy test shift .keyset keys entries) unbounded c = .ok place := by
  cases c with
  | none => exact ⟨unbounded, rfl⟩
  | some d =>
    show ∃ place, Except.mapError _ (anchor keys d >>= _) = .ok place
    rw [anchor_eq_recordedPrefix (h d rfl)]
    exact ⟨_, rfl⟩

omit [Record ρ] in
/-- Cursors that record the first key leave a window. -/
theorem exists_cursorWindow {keys : List OrderKey} (entries : List (Entry ρ))
    (hafter : ∀ c ∈ after, c.leading keys ≠ []) (hbefore : ∀ c ∈ before, c.leading keys ≠ []) :
    ∃ w, cursorWindow .keyset keys entries after before = .ok w := by
  obtain ⟨start, hstart⟩ := exists_boundOr_placeBy Ordering.isLE 1 0 entries hafter
  obtain ⟨stop, hstop⟩ := exists_boundOr_placeBy Ordering.isLT 0 entries.length entries hbefore
  exact ⟨_, Outcome.bind_eq_ok.mpr ⟨start, hstart, Outcome.bind_eq_ok.mpr ⟨stop, hstop, rfl⟩⟩⟩

/-- The page of a query that has cursors and no counts shows, of the rows of the query without either,
those between the cursors. -/
theorem paginate_between_cursors (hkeyset : options.strategy = .keyset)
    (hafter : ∀ c ∈ after, c.leading (keysOf options q) ≠ [] ∧ TransitiveAround options q rows c)
    (hbefore : ∀ c ∈ before, c.leading (keysOf options q) ≠ [] ∧ TransitiveAround options q rows c) :
    ∃ page whole,
      paginate options { q.unbounded with after := after, before := before } rows = .ok page ∧
      paginate options q.unbounded rows = .ok whole ∧
      page.items = strictlyBetween .keyset (keysOf options q) after before whole.items := by
  obtain ⟨w, hw⟩ := exists_cursorWindow after before (entriesOf options q rows)
    (fun c hc => (hafter c hc).1) (fun c hc => (hbefore c hc).1)
  obtain ⟨hle, hlen⟩ := cursorWindow_le hw
  obtain ⟨front, shown, back, he, hs⟩ := Window.exists_shows hle hlen
  have hslice := slice_keyset (q := { q.unbounded with after := after, before := before })
    (fun c hc => (hafter c hc).2) (fun c hc => (hbefore c hc).2) hw
  rw [← hkeyset] at hw
  refine ⟨_, _, paginate_first hw he hs none, paginate_unbounded options q rows, ?_⟩
  refine Eq.trans ?_ hslice
  show shown.map Entry.row = w.slice ((entriesOf options q rows).map Entry.row)
  rw [he, Window.slice_map, hs.slice_eq]

end Cursors

/-- Every page holds the rows that its query selects, and counts those that pass the filters. -/
theorem items_eq_selection (h : paginate options q rows = .ok page)
    (ht : TransitiveOn Value.sortCompare (keyValues options q rows ++ cursorValues options q)) :
    page.items = selection options q rows ∧
      page.info.totalCount =
        if options.countTotal then some (passing q rows).length else none := by
  obtain ⟨w, front, shown, back, hw, he, hs, before, behind, hshown, rfl⟩ :=
    exists_parts_of_paginate h
  constructor
  · have hrows := map_row_entriesOf (ht.mono (List.subset_append_left _ _))
    have hslice := slice_eq_strictlyBetween ht hw
    rw [Window.slice_map, he, hs.slice_eq, ← he, hrows] at hslice
    show (Window.cutRows q.offset q.limit q.first q.last shown).map Entry.row = _
    rw [← Window.cutRows_map, hslice]
    rfl
  · have hlength : (front ++ before).length +
        ((Window.cutRows q.offset q.limit q.first q.last shown).length + (behind ++ back).length) =
          (passing q rows).length := by
      rw [← length_entriesOf, he]
      conv => rhs; rw [hshown]
      simp only [List.length_append, Nat.add_assoc]
    show (if options.countTotal then some _ else none) = _
    rw [hlength]

theorem items_eq_selection_people :
    ∃ page, paginate .standard { oldestFirst with after := some ⟨[("age", .int 30)]⟩, last := some 1 }
        people = .ok page ∧
      page.items = selection .standard
        { oldestFirst with after := some ⟨[("age", .int 30)]⟩, last := some 1 } people ∧
      page.info.totalCount = some 4 :=
  ⟨_, rfl, items_eq_selection rfl (by decide +kernel)⟩

end RowQuery.Page
