import RowQuery.Proofs.Sql.Clauses

/-!
# The order that a statement asks for

If a count from the end is the only count of a query, its statement asks for the reversed order and takes
the count from the front of it; `arrange` reverses what was fetched. For any other counts the statement
asks for the order of the query. Whether the order is reversed is said beside the text, and the text has
to agree. A query without an ordering has no order to reverse: its statement is said to be reversed all
the same, and takes the count from the front of the rows as they come.

Results:
* `directedBy_of_ofQuery`: the clause of the order is the ordering of the query or its reverse, as the
  statement says, and a count from the end keeps the last rows of an order of the query.
* `last_without_order_youngest`: without an ordering it keeps the first row instead.
-/

namespace RowQuery.Sql

/-! ## Statements of queries -/

/-- The text in front of the order. -/
theorem Select.chars_front (r : Renderer) (s : Select) :
    { s with order := [], limit := none, offset := none : Select }.chars r =
      "SELECT * FROM ".toList ++ r.identifier s.table ++ spaced (whereChars (s.conditions r)) := by
  unfold chars
  show _ ++ [] ++ [] ++ [] = _
  rw [List.append_nil, List.append_nil, List.append_nil]
  rfl

namespace Statement

/-- A statement whose flag, text and arrangement agree on the order of a query. -/
structure DirectedBy (q : Query) (s : Statement) : Prop where
  /-- The order is reversed for a count from the end that is the only count. -/
  reversed_iff : s.reversed = true ↔
    q.last.isSome = true ∧ q.first = none ∧ q.limit = none ∧ q.offset = none
  /-- In any dialect the clause stands between the conditions and the counts. -/
  clause (r : Renderer) : s.select.chars r =
    { s.select with order := [], limit := none, offset := none : Select }.chars r
      ++ Select.spaced (Select.orderChars r (directed s.reversed q.order))
      ++ Select.spaced (Select.countChars "LIMIT" s.select.limit)
      ++ Select.spaced (Select.countChars "OFFSET" s.select.offset)
  /-- In the standard dialect the ordering is read back from the whole text. -/
  read_back : ∃ ts, tokens? (s.text .standard).toList = some ts ∧
    orderOf? ts = some (directed s.reversed q.order)
  /-- So are all clauses by which the statement fetches. -/
  clauses_read_back : Clauses.ofText? (s.text .standard) = some s.select.clauses
  /-- A reversed statement fetches the last rows of an order of the query, from the far end. -/
  from_end (hreversed : s.reversed = true) {ρ : Type} [Record ρ] {selected fetched : List ρ}
    (hf : s.select.Fetches selected fetched) : ∃ ordered, ordered.Perm selected ∧
      SortedBy q.order ordered ∧ fetched = (Window.lastRows q.last ordered).reverse ∧
      s.arrange fetched = Window.lastRows q.last ordered
  /-- Any other statement fetches the first rows of an order of the query, and keeps the last of them. -/
  from_front (hreversed : s.reversed = false) {ρ : Type} [Record ρ] {selected fetched : List ρ}
    (hf : s.select.Fetches selected fetched) : ∃ ordered, ordered.Perm selected ∧
      SortedBy q.order ordered ∧
      fetched = Window.firstRows (smaller q.limit q.first) (ordered.drop (q.offset.getD 0)) ∧
      s.arrange fetched = Window.lastRows q.last fetched
  /-- Without an ordering any order of the rows is one of the query: a reversed statement may fetch the
  rows in front. -/
  without_order (hreversed : s.reversed = true) (horder : q.order = []) {ρ : Type} [Record ρ]
    (selected : List ρ) : s.select.Fetches selected (Window.firstRows q.last selected)

variable {table : String} {q : Query} {s : Statement}

theorem countsFromEnd_iff : countsFromEnd q = true ↔
    q.last.isSome = true ∧ q.first = none ∧ q.limit = none ∧ q.offset = none := by
  unfold countsFromEnd
  simp only [Bool.and_eq_true, Option.isNone_iff_eq_none, and_assoc]

/-- The limit and the offset of a reversed statement. -/
theorem counts_of_reversed (h : ofQuery table q = .ok s) (hreversed : s.reversed = true) :
    s.select.limit = q.last ∧ s.select.offset = none ∧ s.keepLast = none := by
  obtain ⟨hflag, hkeep, _, hlimit, hoffset⟩ := ofQuery_eq_ok h
  have hend : countsFromEnd q = true := hflag ▸ hreversed
  rw [hkeep, hlimit, hoffset, hend]
  exact ⟨rfl, (counts_of_countsFromEnd hend).2.2, rfl⟩

/-- What a reversed statement fetches, reversed again, are the last rows of an order of the query. -/
theorem fetches_of_reversed (h : ofQuery table q = .ok s) (hreversed : s.reversed = true)
    {ρ : Type} [Record ρ] {selected fetched : List ρ} (hf : s.select.Fetches selected fetched) :
    ∃ ordered, ordered.Perm selected ∧ SortedBy q.order ordered ∧
      fetched = (Window.lastRows q.last ordered).reverse ∧
      s.arrange fetched = Window.lastRows q.last ordered := by
  obtain ⟨hlimit, hoffset, hkeep⟩ := counts_of_reversed h hreversed
  obtain ⟨ordered, hperm, hsorted, hfetched⟩ := Select.fetches_iff.mp hf
  rw [order_of_ofQuery h, hreversed] at hsorted
  have hback : SortedBy q.order ordered.reverse := sortedBy_map_reversed.mp hsorted
  have hrows : fetched = (Window.lastRows q.last ordered.reverse).reverse := by
    rw [hfetched, hlimit, hoffset, ← Window.firstRows_reverse, List.reverse_reverse]
    rfl
  refine ⟨ordered.reverse, (List.reverse_perm ordered).trans hperm, hback, hrows, ?_⟩
  unfold arrange arrangeRows
  rw [hreversed, hkeep, if_pos rfl, hrows, List.reverse_reverse]
  rfl

/-- What any other statement fetches are the first rows of an order of the query. -/
theorem fetches_of_not_reversed (h : ofQuery table q = .ok s) (hreversed : s.reversed = false)
    {ρ : Type} [Record ρ] {selected fetched : List ρ} (hf : s.select.Fetches selected fetched) :
    ∃ ordered, ordered.Perm selected ∧ SortedBy q.order ordered ∧
      fetched = Window.firstRows (smaller q.limit q.first) (ordered.drop (q.offset.getD 0)) ∧
      s.arrange fetched = Window.lastRows q.last fetched := by
  obtain ⟨hflag, hkeep, horder, hlimit, hoffset⟩ := ofQuery_eq_ok h
  have hend : countsFromEnd q = false := hflag ▸ hreversed
  obtain ⟨ordered, hperm, hsorted, hfetched⟩ := Select.fetches_iff.mp hf
  rw [hend] at hkeep horder hlimit
  rw [horder] at hsorted
  rw [hlimit, hoffset] at hfetched
  refine ⟨ordered, hperm, hsorted, hfetched, ?_⟩
  unfold arrange arrangeRows
  rw [hreversed, hkeep, keepLast_eq_lastRows]
  rfl

theorem fetches_without_order (h : ofQuery table q = .ok s) (hreversed : s.reversed = true)
    (horder : q.order = []) {ρ : Type} [Record ρ] (selected : List ρ) :
    s.select.Fetches selected (Window.firstRows q.last selected) := by
  obtain ⟨hlimit, hoffset, _⟩ := counts_of_reversed h hreversed
  have hunordered : s.select.order = [] := by
    rw [order_of_ofQuery h, horder, hreversed]
    rfl
  have hsorted : SortedBy s.select.order selected := by
    rw [hunordered]
    exact List.pairwise_of_forall fun _ _ => rfl
  refine Select.fetches_iff.mpr ⟨selected, .refl selected, hsorted, ?_⟩
  rw [hlimit, hoffset]
  rfl

/-- The flag, the text and the arrangement of a statement agree on the order of its query; only without an
ordering does a reversed statement say no end to count from. -/
theorem directedBy_of_ofQuery (h : ofQuery table q = .ok s) : s.DirectedBy q where
  reversed_iff := by
    rw [(ofQuery_eq_ok h).1]
    exact countsFromEnd_iff
  clause r := by
    rw [← order_of_ofQuery h, Select.chars_front]
    rfl
  read_back :=
    ⟨s.select.tokens .standard, s.tokens?_text,
      (Select.orderOf?_tokens rfl s.select).trans (congrArg some (order_of_ofQuery h))⟩
  clauses_read_back := s.ofText?_text
  from_end hreversed _ _ _ _ hf := fetches_of_reversed h hreversed hf
  from_front hreversed _ _ _ _ hf := fetches_of_not_reversed h hreversed hf
  without_order hreversed horder _ _ selected := fetches_without_order h hreversed horder selected

theorem directedBy_youngest :
    ∃ s, ofQuery "people" { Query.all with order := [.desc "age", .asc "id"], last := some 2 } = .ok s ∧
      s.reversed = true ∧
      s.DirectedBy { Query.all with order := [.desc "age", .asc "id"], last := some 2 } := by
  have hstatement : ∃ s, ofQuery "people"
      { Query.all with order := [.desc "age", .asc "id"], last := some 2 } = .ok s ∧
        s.reversed = true := ⟨_, rfl, rfl⟩
  obtain ⟨s, hs, hreversed⟩ := hstatement
  exact ⟨s, hs, hreversed, directedBy_of_ofQuery hs⟩

/-- Without an ordering, a count from the end keeps the first person: no clause says which end it counts
from. -/
theorem last_without_order_youngest :
    ∃ s fetched,
      ofQuery "people" { Query.all with last := some 1 } = .ok s ∧ s.reversed = true ∧
      s.text .standard = "SELECT * FROM \"people\" LIMIT 1" ∧
      (∃ ts, tokens? (s.text .standard).toList = some ts ∧ orderOf? ts = some []) ∧
      s.select.Fetches peopleByAge fetched ∧
      s.arrange fetched = peopleByAge.take 1 ∧
      peopleByAge.take 1 ≠ Window.lastRows (some 1) peopleByAge := by
  have hstatement : ∃ s, ofQuery "people" { Query.all with last := some 1 } = .ok s ∧
      s.reversed = true ∧ s.text .standard = "SELECT * FROM \"people\" LIMIT 1" ∧
        s.arrange (peopleByAge.take 1) = peopleByAge.take 1 := ⟨_, rfl, rfl, rfl, rfl⟩
  obtain ⟨s, hs, hreversed, htext, harrange⟩ := hstatement
  let front := [keyword "SELECT", .symbol '*', keyword "FROM", .name "people".toList]
  have htokens : ∃ ts, tokens? (s.text .standard).toList = some ts ∧ orderOf? ts = some [] := by
    rw [htext]
    exact ⟨front ++ [keyword "LIMIT", .word ['1']], rfl, rfl⟩
  exact ⟨s, _, hs, hreversed, htext, htokens, fetches_without_order hs hreversed rfl peopleByAge,
    harrange, by decide⟩

end Statement

end RowQuery.Sql
