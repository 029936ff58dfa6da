import RowQuery.Proofs.Walk.Basic

/-!
# Walks through rows that change

Between two pages of a walk rows may come, go or change. A cursor of recorded values still bounds the
next page: that page shows rows strictly beyond the last row of the page before it, whether or not that
row is still there. So the keys of the rows that a walk gives keep rising, and it passes by no row that
stays.

Results:
* `Ahead.step_changed`: the next page takes from the rows beyond the last one, as they are by then.
* `Ahead.continues`: what a walk gives behind a page.
* `walk_delivers_lasting_rows`: a walk gives no row twice, and every row that stays until it ends.
-/

namespace RowQuery.Walk

open Page

variable {ρ : Type} [Record ρ]

/-- A row stands strictly in front of another by their keys. -/
def RowBefore (options : PageOptions) (q : Query) (a b : ρ) : Prop :=
  OrderKey.compareKeys (keysOf options q) (OrderKey.rowKey (keysOf options q) a)
    (OrderKey.rowKey (keysOf options q) b) = .lt

/-! ## Rows and their keys -/

section Rows

variable {options : PageOptions} {q : Query} {values : List Value} {rows ahead : List ρ}
  {page : Page ρ}

theorem RowBefore.irrefl (row : ρ) : ¬RowBefore options q row row := by
  intro h
  have hself : OrderKey.compareKeys (keysOf options q) (OrderKey.rowKey (keysOf options q) row)
      (OrderKey.rowKey (keysOf options q) row) = .eq := Std.ReflCmp.compare_self
  unfold RowBefore at h
  rw [hself] at h
  cases h

theorem RowBefore.trans {a b c : ρ} (h : TransitiveOn Value.sortCompare values)
    (ha : OrderKey.rowKey (keysOf options q) a ⊆ values)
    (hb : OrderKey.rowKey (keysOf options q) b ⊆ values)
    (hc : OrderKey.rowKey (keysOf options q) c ⊆ values) (hab : RowBefore options q a b)
    (hbc : RowBefore options q b c) : RowBefore options q a c := by
  have hl : (OrderKey.rowKey (keysOf options q) b).length =
      (OrderKey.rowKey (keysOf options q) a).length :=
    (OrderKey.length_rowKey _ b).trans (OrderKey.length_rowKey _ a).symm
  exact OrderKey.compareKeys_lt_of_isLE_of_lt h ha hb hc (.inl (Nat.le_of_eq hl))
    (Ordering.isLE_of_eq_lt hab) hbc

theorem rowKey_subset {row : ρ} (hrow : row ∈ passing q rows)
    (hvalues : keyValues options q rows ⊆ values) :
    OrderKey.rowKey (keysOf options q) row ⊆ values :=
  fun _ hv => hvalues (List.mem_flatMap.mpr ⟨row, hrow, hv⟩)

theorem rows_strict (h : TransitiveOn Value.sortCompare (keyValues options q rows))
    (hties : TiesBroken options q rows) :
    ((entriesOf options q rows).map Entry.row).Pairwise (RowBefore options q) := by
  rw [List.pairwise_map]
  refine (entriesOf_strict h hties).imp_of_mem ?_
  intro a b ha hb hab
  unfold RowBefore
  rw [← key_eq_rowKey ha, ← key_eq_rowKey hb]
  exact hab

theorem mem_map_row_entriesOf {row : ρ} :
    row ∈ (entriesOf options q rows).map Entry.row ↔ row ∈ passing q rows := by
  rw [((entriesOf_perm options q rows).map Entry.row).mem_iff, List.map_map]
  show row ∈ (passing q rows).map id ↔ _
  rw [List.map_id]

/-- A page and the rows ahead of it are the end of all rows. -/
theorem Ahead.suffix (ha : Ahead options q rows .forward page ahead) :
    page.items ++ ahead <:+ (entriesOf options q rows).map Entry.row := by
  cases ha with
  | @behind front shown back he =>
    refine ⟨front.map Entry.row, ?_⟩
    rw [he, List.map_append, List.map_append]
    rfl

theorem Ahead.strict (ha : Ahead options q rows .forward page ahead)
    (h : TransitiveOn Value.sortCompare (keyValues options q rows))
    (hties : TiesBroken options q rows) : (page.items ++ ahead).Pairwise (RowBefore options q) :=
  (rows_strict h hties).sublist ha.suffix.sublist

theorem Ahead.mem_passing {row : ρ} (ha : Ahead options q rows .forward page ahead)
    (hrow : row ∈ page.items ++ ahead) : row ∈ passing q rows :=
  mem_map_row_entriesOf.mp (ha.suffix.subset hrow)

theorem Ahead.known {row : ρ} (ha : Ahead options q rows .forward page ahead)
    (hvalues : keyValues options q rows ⊆ values) (hrow : row ∈ page.items) :
    OrderKey.rowKey (keysOf options q) row ⊆ values :=
  rowKey_subset (ha.mem_passing (List.mem_append_left ahead hrow)) hvalues

end Rows

/-! ## A step -/

section Steps

variable {options : PageOptions} {q : Query} {values : List Value} {rows rows' ahead : List ρ}
  {page : Page ρ}

/-- The page behind the cursor of a row shows the rows beyond it, also where the row is gone. -/
theorem exists_page_after {e : Entry ρ} (he : e.key = OrderKey.rowKey (keysOf options q) e.row)
    (hkeyset : options.strategy = .keyset)
    (h : TransitiveOn Value.sortCompare (keyValues options q rows ++ e.key)) (place : Nat)
    (n : Option Nat) :
    ∃ front back, entriesOf options q rows = front ++ back ∧
      (∀ row, row ∈ back.map Entry.row ↔ row ∈ passing q rows ∧ RowBefore options q e.row row) ∧
      paginate options
          { q.unbounded with
            after := some (cursorAt options.strategy (keysOf options q) place e)
            first := n } rows =
        .ok (between options (keysOf options q) front (Window.firstRows n back)
          (Window.beyondFirst n back)) := by
  obtain ⟨front, back, hsplit, hlength, hfront, hback⟩ :=
    Bisection.isBorder_border (entriesOf_closed isCut_isLE h)
  refine ⟨front, back, hsplit, ?_, paginate_after ?_ hsplit n⟩
  · intro row
    constructor
    · intro hrow
      obtain ⟨d, hd, rfl⟩ := List.mem_map.mp hrow
      have hmem : d ∈ entriesOf options q rows := by
        rw [hsplit]
        exact List.mem_append_right front hd
      refine ⟨row_mem_passing hmem, ?_⟩
      unfold RowBefore
      rw [← he, ← key_eq_rowKey hmem]
      apply Std.OrientedCmp.lt_of_not_isLE
      exact Bool.eq_false_iff.mp (hback d hd)
    · rintro ⟨hrow, hlt⟩
      have hmem : row ∈ (entriesOf options q rows).map Entry.row :=
        mem_map_row_entriesOf.mpr hrow
      rw [hsplit, List.map_append] at hmem
      rcases List.mem_append.mp hmem with hrow | hrow
      · obtain ⟨d, hd, rfl⟩ := List.mem_map.mp hrow
        have hmem : d ∈ entriesOf options q rows := by
          rw [hsplit]
          exact List.mem_append_left back hd
        unfold RowBefore at hlt
        rw [← he, ← key_eq_rowKey hmem] at hlt
        exact absurd (hfront d hd) (Std.OrientedCmp.not_isLE_of_lt hlt)
      · exact hrow
  · rw [hkeyset]
    show (anchor _ _ >>= _) = _
    rw [anchor_cursorAt he]
    exact congrArg Except.ok hlength.symm

/-- The next page takes from the rows beyond the last one, as they are by then. -/
theorem Ahead.step_changed (ha : Ahead options q rows .forward page ahead) (hne : ahead ≠ [])
    (hkeyset : options.strategy = .keyset) (h : TransitiveOn Value.sortCompare values)
    (hvalues : keyValues options q rows ⊆ values) (hvalues' : keyValues options q rows' ⊆ values)
    {n : Nat} (hn : 0 < n) :
    ∃ last next successor rest, page.items.getLast? = some last ∧
      Heading.forward.next q.unbounded page.info n = some (.ok next) ∧
      paginate options next rows' = .ok successor ∧
      Ahead options q rows' .forward successor rest ∧
      ∀ row, row ∈ successor.items ++ rest ↔ row ∈ passing q rows' ∧ RowBefore options q last row := by
  obtain ⟨front, e, back, he, _, hlast, hcursor⟩ := ha.last hne
  have hmem := mem_of_split he
  have htrans : TransitiveOn Value.sortCompare (keyValues options q rows' ++ e.key) :=
    h.mono (List.append_subset.mpr
      ⟨hvalues', List.Subset.trans (key_subset_keyValues hmem) hvalues⟩)
  obtain ⟨front', back', he', hbeyond, hpage⟩ :=
    exists_page_after (key_eq_rowKey hmem) hkeyset htrans front.length (some n)
  refine ⟨e.row, _, _, _, hlast, next_forward hcursor hn, hpage,
    .behind ?_ (Window.firstRows_ne_nil hn), ?_⟩
  · rw [Window.firstRows_append_beyondFirst]
    exact he'
  · intro row
    show row ∈ List.map _ _ ++ List.map _ _ ↔ _
    rw [← List.map_append, Window.firstRows_append_beyondFirst]
    exact hbeyond row

end Steps

/-! ## A run -/

/-- What the pages that follow a page give, when the requests are for rows with keys of some values. -/
structure Continues (options : PageOptions) (q : Query) (values : List Value) (page : Page ρ)
    (ahead : List ρ) (requests : List (Request ρ)) (pages : List (Page ρ)) : Prop where
  stops : pages.length < requests.length → Ended .forward (page :: pages)
  shown : page.items = [] → pages = []
  known : ∀ row ∈ Heading.forward.join pages, OrderKey.rowKey (keysOf options q) row ⊆ values
  rising : (page.items ++ Heading.forward.join pages).Pairwise (RowBefore options q)
  complete : Ended .forward (page :: pages) → ∀ row ∈ ahead,
    (∀ r ∈ requests.take pages.length, row ∈ passing q r.rows) → row ∈ Heading.forward.join pages

section Runs

variable {options : PageOptions} {q : Query} {values : List Value} {rows ahead rest : List ρ}
  {page successor : Page ρ} {pages : List (Page ρ)} {r : Request ρ} {requests : List (Request ρ)}

theorem continues_nil (ha : Ahead options q rows .forward page ahead)
    (h : TransitiveOn Value.sortCompare (keyValues options q rows))
    (hties : TiesBroken options q rows) (hstops : requests ≠ [] → ahead = []) :
    Continues options q values page ahead requests [] where
  stops hlt := by
    obtain rfl := hstops (List.ne_nil_of_length_pos hlt)
    exact (ended_singleton .forward page).mpr ha.ended
  shown _ := rfl
  known _ hrow := absurd hrow List.not_mem_nil
  rising := by
    rw [join_nil, List.append_nil]
    exact (List.pairwise_append.mp (ha.strict h hties)).1
  complete hended row hrow _ := by
    have hmore := ha.more_iff.mpr (List.ne_nil_of_mem hrow)
    rw [(ended_singleton .forward page).mp hended] at hmore
    cases hmore

theorem before_last {items : List ρ} {a last : ρ} (h : items.Pairwise (RowBefore options q))
    (hlast : items.getLast? = some last) (ha : a ∈ items) : a = last ∨ RowBefore options q a last := by
  obtain ⟨init, rfl⟩ := List.getLast?_eq_some_iff.mp hlast
  rcases List.mem_append.mp ha with ha | ha
  · exact .inr ((List.pairwise_append.mp h).2.2 a ha last List.mem_cons_self)
  · exact .inl (List.mem_singleton.mp ha)

/-- The rows given from a page on are beyond every row that those of the page are beyond. -/
theorem Continues.beyond {last : ρ} (hc : Continues options q values successor rest requests pages)
    (h : TransitiveOn Value.sortCompare values)
    (hlast : OrderKey.rowKey (keysOf options q) last ⊆ values)
    (hknown : ∀ row ∈ successor.items, OrderKey.rowKey (keysOf options q) row ⊆ values)
    (hshown : ∀ row ∈ successor.items, RowBefore options q last row) :
    ∀ row ∈ successor.items ++ Heading.forward.join pages,
      OrderKey.rowKey (keysOf options q) row ⊆ values ∧ RowBefore options q last row := by
  obtain ⟨_, _, hpages⟩ := List.pairwise_append.mp hc.rising
  intro row hrow
  rcases List.mem_append.mp hrow with hrow | hrow
  · exact ⟨hknown row hrow, hshown row hrow⟩
  · refine ⟨hc.known row hrow, ?_⟩
    -- Further pages follow only a page with a row, and that row stands between.
    cases hitems : successor.items with
    | nil =>
      rw [hc.shown hitems, join_nil] at hrow
      exact absurd hrow List.not_mem_nil
    | cons c others =>
      have hmem : c ∈ successor.items := by
        rw [hitems]
        exact List.mem_cons_self
      exact RowBefore.trans h hlast (hknown c hmem) (hc.known row hrow) (hshown c hmem)
        (hpages c hmem row hrow)

/-- A page of the rows beyond the last one keeps what is promised behind it. -/
theorem Continues.cons {last : ρ} (hc : Continues options q values successor rest requests pages)
    (ha : Ahead options q rows .forward page ahead)
    (ha' : Ahead options q r.rows .forward successor rest)
    (h : TransitiveOn Value.sortCompare values) (hvalues : keyValues options q rows ⊆ values)
    (hties : TiesBroken options q rows) (hvalues' : keyValues options q r.rows ⊆ values)
    (hlast : page.items.getLast? = some last)
    (hbeyond : ∀ row, row ∈ successor.items ++ rest ↔
      row ∈ passing q r.rows ∧ RowBefore options q last row) :
    Continues options q values page ahead (r :: requests) (successor :: pages) := by
  obtain ⟨hitems, _, hahead⟩ := List.pairwise_append.mp (ha.strict (h.mono hvalues) hties)
  have hmem : last ∈ page.items := List.mem_of_getLast? hlast
  have hgiven := hc.beyond h (ha.known hvalues hmem) (fun _ => ha'.known hvalues')
    fun row hrow => ((hbeyond row).mp (List.mem_append_left rest hrow)).2
  have hjoin : Heading.forward.join (successor :: pages) =
      successor.items ++ Heading.forward.join pages := join_cons .forward successor pages
  constructor
  case stops =>
    intro hlt
    exact (ended_cons_cons .forward page successor pages).mpr (hc.stops (Nat.lt_of_succ_lt_succ hlt))
  case shown =>
    intro hnil
    rw [hnil] at hlast
    cases hlast
  case known =>
    intro row hrow
    rw [hjoin] at hrow
    exact (hgiven row hrow).1
  case rising =>
    rw [hjoin]
    refine List.pairwise_append.mpr ⟨hitems, hc.rising, ?_⟩
    intro a ha₀ b hb
    obtain ⟨hb, hlt⟩ := hgiven b hb
    rcases before_last hitems hlast ha₀ with rfl | hlt'
    · exact hlt
    · exact RowBefore.trans h (ha.known hvalues ha₀) (ha.known hvalues hmem) hb hlt' hlt
  case complete =>
    intro hended row hrow hstays
    obtain ⟨hrow', hstays⟩ := List.forall_mem_cons.mp hstays
    rw [hjoin]
    rcases List.mem_append.mp ((hbeyond row).mpr ⟨hrow', hahead last hmem row hrow⟩) with hrow | hrow
    · exact List.mem_append_left _ hrow
    · exact List.mem_append_right _
        (hc.complete ((ended_cons_cons .forward page successor pages).mp hended) row hrow hstays)

/-- However the rows change, a walk goes on until nothing is ahead, to ever further rows, and passes by
no row that stays. -/
theorem Ahead.continues (ha : Ahead options q rows .forward page ahead)
    (hkeyset : options.strategy = .keyset) (h : TransitiveOn Value.sortCompare values)
    (hvalues : keyValues options q rows ⊆ values) (hties : TiesBroken options q rows)
    (hrequests : ∀ r ∈ requests, keyValues options q r.rows ⊆ values ∧ TiesBroken options q r.rows) :
    ∃ pages, following .forward options q.unbounded page requests = .ok pages ∧
      Continues options q values page ahead requests pages := by
  induction requests generalizing rows page ahead with
  | nil => exact ⟨[], rfl, continues_nil ha (h.mono hvalues) hties fun hne => absurd rfl hne⟩
  | cons r requests ih =>
    by_cases hne : ahead = []
    · subst hne
      exact ⟨[], following_of_ended ha.ended _,
        continues_nil ha (h.mono hvalues) hties fun _ => rfl⟩
    · obtain ⟨⟨hvalues', hties'⟩, hrequests⟩ := List.forall_mem_cons.mp hrequests
      obtain ⟨last, next, successor, rest, hlast, hnext, hpage, ha', hbeyond⟩ :=
        ha.step_changed hne hkeyset h hvalues hvalues' r.positive
      obtain ⟨pages, hpages, hc⟩ := ih ha' hvalues' hties' hrequests
      exact ⟨successor :: pages, following_cons (ha.more_iff.mpr hne) hnext hpage hpages,
        hc.cons ha ha' h hvalues hties hvalues' hlast hbeyond⟩

theorem split_of_mem {items : List ρ} {row : ρ} (h : items.Pairwise (RowBefore options q))
    (hrow : row ∈ items) :
    ∃ front back, items = front ++ row :: back ∧ row ∉ front ∧ row ∉ back := by
  obtain ⟨front, back, rfl⟩ := List.append_of_mem hrow
  obtain ⟨_, hback, hfront⟩ := List.pairwise_append.mp h
  refine ⟨front, back, rfl, ?_, ?_⟩
  · intro hmem
    exact RowBefore.irrefl row (hfront row hmem row List.mem_cons_self)
  · intro hmem
    exact RowBefore.irrefl row ((List.pairwise_cons.mp hback).1 row hmem)

/-- The keys of the rows that a walk gives rise strictly, however the rows change between its pages, and
when it ends it has given every row that was there for each of them, and only once. -/
theorem walk_delivers_lasting_rows (hkeyset : options.strategy = .keyset)
    (hties : ∀ r ∈ requests, TiesBroken options q r.rows)
    (htrans : TransitiveOn Value.sortCompare (requests.flatMap fun r => keyValues options q r.rows)) :
    ∃ pages, walk .forward options q.unbounded requests = .ok pages ∧
      (pages.length < requests.length → Ended .forward pages) ∧
      (Heading.forward.join pages).Pairwise (RowBefore options q) ∧
      (Ended .forward pages → ∀ row,
        (∀ r ∈ requests.take pages.length, row ∈ passing q r.rows) →
          ∃ front back, Heading.forward.join pages = front ++ row :: back ∧
            row ∉ front ∧ row ∉ back) := by
  cases requests with
  | nil =>
    refine ⟨[], rfl, fun hlt => absurd hlt (Nat.lt_irrefl 0), .nil, ?_⟩
    rintro ⟨_, hlast, _⟩
    cases hlast
  | cons r requests =>
    have hvalues : ∀ r' ∈ r :: requests, keyValues options q r'.rows ⊆
        (r :: requests).flatMap fun r => keyValues options q r.rows :=
      fun r' hr' _ hv => List.mem_flatMap.mpr ⟨r', hr', hv⟩
    obtain ⟨opening, page, ahead, hopening, hpage, ha, hglue⟩ :=
      exists_opening .forward options q r.rows r.positive
    obtain ⟨pages, hpages, hc⟩ :=
      ha.continues hkeyset htrans (hvalues r List.mem_cons_self) (hties r List.mem_cons_self)
        fun r' hr' => ⟨hvalues r' (List.mem_cons_of_mem r hr'), hties r' (List.mem_cons_of_mem r hr')⟩
    have hjoin := join_cons .forward page pages
    refine ⟨page :: pages, walk_cons hopening hpage hpages, ?_, ?_, ?_⟩
    · intro hlt
      exact hc.stops (Nat.lt_of_succ_lt_succ hlt)
    · rw [hjoin]
      exact hc.rising
    · intro hended row hstays
      obtain ⟨hrow, hstays⟩ := List.forall_mem_cons.mp hstays
      have hmem : row ∈ page.items ++ ahead := by
        show row ∈ Heading.forward.glue page.items ahead
        rw [hglue]
        exact mem_map_row_entriesOf.mpr hrow
      rw [hjoin]
      refine split_of_mem hc.rising ?_
      rcases List.mem_append.mp hmem with hmem | hmem
      · exact List.mem_append_left _ hmem
      · exact List.mem_append_right _ (hc.complete hended row hmem hstays)

end Runs

/-- Requests between which the row that the first page ends with goes and another one comes. -/
def changing : List (Request Row) :=
  [⟨people, 2, Nat.two_pos⟩,
    ⟨people.eraseIdx 2 ++ [⟨[("id", .int 5), ("age", .int 25)]⟩], 1, Nat.one_pos⟩,
    ⟨people.eraseIdx 2, 3, Nat.succ_pos 2⟩]

theorem walk_delivers_lasting_people :
    ∃ pages, walk .forward .standard oldestFirst changing = .ok pages ∧
      (pages.length < changing.length → Ended .forward pages) ∧
      (Heading.forward.join pages).Pairwise (RowBefore .standard oldestFirst) ∧
      (Ended .forward pages → ∀ row,
        (∀ r ∈ changing.take pages.length, row ∈ passing oldestFirst r.rows) →
          ∃ front back, Heading.forward.join pages = front ++ row :: back ∧
            row ∉ front ∧ row ∉ back) :=
  walk_delivers_lasting_rows (q := oldestFirst) rfl (by decide +kernel) (by decide +kernel)

example : (walk .forward .standard oldestFirst changing).map
    (fun pages => (Heading.forward.join pages).map fun row => Record.value row "id") =
      .ok [.int 1, .int 3, .int 5, .int 2, .int 4] := by cbv

end RowQuery.Walk
