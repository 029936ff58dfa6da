import RowQuery.Proofs.Page.Parts

/-!
# Pages do not depend on where rows are stored

Where no two candidates tie, one list alone has them in strict order. The candidates of a query are this
list, in whatever order the rows are given, and a page is made of its candidates and nothing else.

Results:
* `entriesOf_eq_of_strict`: the candidates are the rows that pass in strict order.
* `paginate_eq_of_perm`: rows given in another order have the same page, or the same error.
-/

namespace RowQuery.Page

variable {ρ : Type} [Record ρ] {options : PageOptions} {q : Query} {rows rows' : List ρ}

/-! ## Rows in another order -/

theorem passing_perm (hperm : rows.Perm rows') (q : Query) :
    (passing q rows).Perm (passing q rows') :=
  hperm.filter _

theorem keyValues_transitive_of_perm (hperm : rows.Perm rows')
    (h : TransitiveOn Value.sortCompare (keyValues options q rows)) :
    TransitiveOn Value.sortCompare (keyValues options q rows') := by
  refine h.mono ?_
  intro v hv
  obtain ⟨row, hrow, hv⟩ := List.mem_flatMap.mp hv
  exact List.mem_flatMap.mpr ⟨row, (passing_perm hperm q).mem_iff.mpr hrow, hv⟩

theorem TiesBroken.of_perm (hperm : rows.Perm rows') (h : TiesBroken options q rows) :
    TiesBroken options q rows' := by
  refine (passing_perm hperm q).pairwise h ?_
  intro a b hab hba
  exact hab (Std.OrientedCmp.eq_symm hba)

/-! ## The candidates -/

/-- Any strict order of the rows that pass is the one of the candidates. -/
theorem entriesOf_eq_of_strict {entries : List (Entry ρ)}
    (h : TransitiveOn Value.sortCompare (keyValues options q rows)) (ht : TiesBroken options q rows)
    (hperm : entries.Perm ((passing q rows).map (entryOf (keysOf options q))))
    (hstrict : entries.Pairwise fun a b => compareEntries (keysOf options q) a b = .lt) :
    entriesOf options q rows = entries :=
  StableSort.eq_of_strict ((entriesOf_perm options q rows).trans hperm.symm) (entriesOf_strict h ht)
    hstrict

theorem entriesOf_eq_of_perm (hperm : rows.Perm rows')
    (h : TransitiveOn Value.sortCompare (keyValues options q rows))
    (ht : TiesBroken options q rows) : entriesOf options q rows = entriesOf options q rows' := by
  refine entriesOf_eq_of_strict h ht ?_ ?_
  · exact (entriesOf_perm options q rows').trans ((passing_perm hperm.symm q).map _)
  · exact entriesOf_strict (keyValues_transitive_of_perm hperm h) (ht.of_perm hperm)

/-! ## The page -/

/-- Rows given in another order have the same page, or the same error. -/
theorem paginate_eq_of_perm (hperm : rows.Perm rows')
    (h : TransitiveOn Value.sortCompare (keyValues options q rows))
    (ht : TiesBroken options q rows) : paginate options q rows = paginate options q rows' := by
  have hentries := entriesOf_eq_of_perm hperm h ht
  unfold entriesOf keysOf at hentries
  simp only [paginate, hentries]

theorem paginate_eq_people_reverse :
    people.reverse ≠ people ∧
      paginate .standard { oldestFirst with offset := some 1, last := some 2 } people =
        paginate .standard { oldestFirst with offset := some 1, last := some 2 } people.reverse :=
  ⟨by decide +kernel,
    paginate_eq_of_perm people.reverse_perm.symm (by decide +kernel) (by decide +kernel)⟩

end RowQuery.Page
