import RowQuery.Proofs.Page.Parts

/-!
# Adding filters to a query

A further filter takes candidates away and leaves the others as they stand. This needs the sort to be
stable: rows that tie stand in the order in which they are given, and do so with or without the rows that
the filter takes away.

Results:
* `entriesOf_adding`: the candidates that are left stand in the same order.
* `paginate_adding`: so do the rows of the page, and only the set of the filters matters.
-/

namespace RowQuery

/-- The query with further filters. -/
def Query.adding (q : Query) (filters : List Filter) : Query :=
  { q with filters := q.filters ++ filters }

namespace Filter

variable {ρ : Type} [Record ρ]

theorem acceptsAll_append (first second : List Filter) (row : ρ) :
    acceptsAll (first ++ second) row = (acceptsAll first row && acceptsAll second row) :=
  List.all_append

theorem acceptsAll_singleton (f : Filter) (row : ρ) : acceptsAll [f] row = f.accepts row :=
  Bool.and_true _

/-- Neither the order of filters nor their repetition matters. -/
theorem acceptsAll_congr {filters others : List Filter} (h : ∀ f, f ∈ filters ↔ f ∈ others)
    (row : ρ) : acceptsAll filters row = acceptsAll others row := by
  unfold acceptsAll
  rw [Bool.eq_iff_iff, List.all_eq_true, List.all_eq_true]
  exact forall_congr' fun f => imp_congr_left (h f)

end Filter

namespace Page

variable {ρ : Type} [Record ρ] {options : PageOptions} {q : Query} {rows : List ρ}

theorem passing_adding (q : Query) (filters : List Filter) (rows : List ρ) :
    passing (q.adding filters) rows = (passing q rows).filter (Filter.acceptsAll filters) := by
  unfold passing
  rw [List.filter_filter]
  refine List.filter_congr fun row _ => ?_
  show Filter.acceptsAll (q.filters ++ filters) row = _
  rw [Filter.acceptsAll_append, Bool.and_comm]

/-- The candidates are the entries of the rows that pass, sorted by the order of their keys. -/
theorem entriesOf_eq_sort (options : PageOptions) (q : Query) (rows : List ρ) :
    entriesOf options q rows =
      StableSort.sort (StableSort.ltOf (compareEntries (keysOf options q)))
        ((passing q rows).map (entryOf (keysOf options q))) := rfl

/-- Of the candidates those are left that the further filters match, in the same order. -/
theorem entriesOf_adding (h : TransitiveOn Value.sortCompare (keyValues options q rows))
    (filters : List Filter) :
    entriesOf options (q.adding filters) rows =
      (entriesOf options q rows).filter fun e => Filter.acceptsAll filters e.row := by
  have htransitive : TransitiveOn (compareEntries (keysOf options q))
      ((passing q rows).map (entryOf (keysOf options q))) :=
    (entriesOf_transitive h).mono (entriesOf_perm options q rows).symm.subset
  have hpassing : (passing (q.adding filters) rows).map (entryOf (keysOf options q)) =
      ((passing q rows).map (entryOf (keysOf options q))).filter
        fun e => Filter.acceptsAll filters e.row := by
    rw [passing_adding, List.filter_map]
    rfl
  calc
    entriesOf options (q.adding filters) rows =
        StableSort.sort (StableSort.ltOf (compareEntries (keysOf options q)))
          ((passing (q.adding filters) rows).map (entryOf (keysOf options q))) :=
      entriesOf_eq_sort options (q.adding filters) rows
    _ = (entriesOf options q rows).filter fun e => Filter.acceptsAll filters e.row := by
      rw [hpassing, StableSort.sort_filter htransitive, entriesOf_eq_sort]

/-- Queries that add the same filters have the same page, or the same error. -/
theorem paginate_adding_congr {filters others : List Filter}
    (h : ∀ f, f ∈ (q.adding filters).filters ↔ f ∈ (q.adding others).filters) :
    paginate options (q.adding filters) rows = paginate options (q.adding others) rows := by
  have hpassing : passing (q.adding filters) rows = passing (q.adding others) rows :=
    List.filter_congr fun row _ => Filter.acceptsAll_congr h row
  have hentries : entriesOf options (q.adding filters) rows =
      entriesOf options (q.adding others) rows := by
    rw [entriesOf_eq_sort, entriesOf_eq_sort, hpassing]
    rfl
  unfold entriesOf keysOf at hentries
  simp only [paginate, hentries]
  rfl

/-- A query without cursors and counts gives the rows that pass. With a further filter, it gives those of
them that the filter matches, in the same order, and counts them. In which order filters are added, and how often, makes no
difference to any query. -/
theorem paginate_adding (f : Filter)
    (h : TransitiveOn Value.sortCompare (keyValues options q rows)) :
    ∃ whole page, paginate options q.unbounded rows = .ok whole ∧
      paginate options (q.unbounded.adding [f]) rows = .ok page ∧
      whole.items.Perm (passing q rows) ∧
      page.items = whole.items.filter (fun row => f.accepts row) ∧
      page.info.totalCount = (if options.countTotal then some page.items.length else none) ∧
      ∀ (q : Query) (filters others : List Filter),
        (∀ g, g ∈ (q.adding filters).filters ↔ g ∈ (q.adding others).filters) →
          paginate options (q.adding filters) rows = paginate options (q.adding others) rows := by
  have hwhole := paginate_unbounded options q rows
  refine ⟨_, _, hwhole, paginate_unbounded options (q.adding [f]) rows, items_unbounded_perm hwhole,
    ?_, ?_, fun _ _ _ => paginate_adding_congr⟩
  · show (entriesOf options (q.adding [f]) rows).map Entry.row =
      ((entriesOf options q rows).map Entry.row).filter fun row => f.accepts row
    rw [entriesOf_adding h, List.filter_map]
    congr 1
    exact List.filter_congr fun e _ => Filter.acceptsAll_singleton f e.row
  · show (if options.countTotal then some (0 + (_ + 0)) else none) = _
    rw [Nat.zero_add, Nat.add_zero]
    show _ = if options.countTotal then some ((entriesOf options (q.adding [f]) rows).map _).length
      else none
    rw [List.length_map]

/-- No field tells the two people of the same age apart, so they stay in the order given. -/
theorem paginate_adding_age :
    ∃ whole page, paginate ⟨"name", .keyset, true⟩ oldestFirst people = .ok whole ∧
      paginate ⟨"name", .keyset, true⟩
        (oldestFirst.adding [⟨"age", .greaterThan, .int 20⟩]) people = .ok page ∧
      whole.items.Perm people ∧
      page.items = whole.items.filter
        (fun row => Filter.accepts ⟨"age", .greaterThan, .int 20⟩ row) ∧
      page.info.totalCount = some page.items.length := by
  have htransitive : TransitiveOn Value.sortCompare
      (keyValues ⟨"name", .keyset, true⟩ oldestFirst people) := by decide +kernel
  obtain ⟨whole, page, hwhole, hpage, hperm, hitems, hcount, _⟩ :=
    paginate_adding ⟨"age", .greaterThan, .int 20⟩ htransitive
  exact ⟨whole, page, hwhole, hpage, hperm, hitems, hcount⟩

end Page

end RowQuery
