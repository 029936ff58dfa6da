import RowQuery.Proofs.Sql.Slicing
import RowQuery.Proofs.Sql.Structure

/-!
# The clauses of a statement in its text

Behind its conditions the text of a statement says in which order rows are fetched, how many of them are
skipped and how many are fetched. These clauses are found again by their keywords, wherever names,
strings or conditions have the same words inside.

Results:
* `orderOf?_tokens`, `countOf?_append`: the ordering and the counts of a statement are read back.
* `ofText?_text`: the clauses of a statement are read back from its text.
* `arrange_fetched_eq_slice`: whatever the counts of a query, what the clauses in the text of its statement
  fetch of a window, arranged, is the slice of the page.
-/

namespace RowQuery

/-- Four people by falling age, two of them of the same age and one of unknown age. -/
def peopleByAge : List Row :=
  [⟨[("id", .int 1), ("age", .int 30)]⟩, ⟨[("id", .int 3), ("age", .int 30)]⟩,
    ⟨[("id", .int 2), ("age", .int 20)]⟩, ⟨[("id", .int 4)]⟩]

namespace Sql

/-! ## Reading the order -/

/-- The key between two commas of an ordering. -/
def keyOfTokens? : List Token → Option OrderKey
  | [column, direction] =>
    if direction = keyword "ASC" then column.name?.map .asc
    else if direction = keyword "DESC" then column.name?.map .desc
    else none
  | _ => none

/-- The keywords that start a clause behind the order. -/
def countClauses : List Token := [keyword "LIMIT", keyword "OFFSET"]

/-- The keys between `ORDER BY` and the counts. -/
def keysOfTokens? : List Token → Option (List OrderKey)
  | t :: ts => if t = keyword "BY" then (ts.splitOn (.symbol ',')).mapM keyOfTokens? else none
  | [] => none

/-- The ordering that a statement asks for outside all parentheses; without a clause it has no keys. -/
def orderOf? (ts : List Token) : Option (List OrderKey) :=
  match (levels 0 ts).dropWhile fun p => p != (keyword "ORDER", 0) with
  | [] => some []
  | _ :: rest =>
    keysOfTokens? ((rest.takeWhile fun p => !(p.2 == 0 && countClauses.contains p.1)).map Prod.fst)

/-! ## Reading the counts -/

/-- The number that a token gives. -/
def Token.count? : Token → Option Nat
  | .word cs => natural? cs
  | _ => none

/-- The count behind a keyword that stands outside all parentheses; without the keyword there is none. -/
def countOf? (word : Token) (ts : List Token) : Option (Option Nat) :=
  match (levels 0 ts).dropWhile fun p => p != (word, 0) with
  | [] => some none
  | [_] => none
  | _ :: p :: _ => p.1.count?.map some

namespace Clauses

/-- The clauses among the tokens of a statement. -/
def ofTokens? (ts : List Token) : Option Clauses := do
  some ⟨← orderOf? ts, ← countOf? (keyword "LIMIT") ts, ← countOf? (keyword "OFFSET") ts⟩

/-- The clauses in the text of a statement. -/
def ofText? (text : String) : Option Clauses := (tokens? text.toList).bind ofTokens?

/-- The text of clauses behind other text. -/
def chars (r : Renderer) (c : Clauses) : List Char :=
  Select.spaced (Select.orderChars r c.order) ++ Select.spaced (Select.countChars "LIMIT" c.limit)
    ++ Select.spaced (Select.countChars "OFFSET" c.offset)

end Clauses

/-! ## Clauses read back -/

theorem levels_of_plain {ts : List Token} (h : ∀ t ∈ ts, t.isParenthesis = false) (rest : List Token) :
    levels 0 (ts ++ rest) = ts.map (fun t => (t, 0)) ++ levels 0 rest := by
  induction ts with
  | nil => rfl
  | cons t ts ih =>
    obtain ⟨ht, hts⟩ := List.forall_mem_cons.mp h
    rw [List.cons_append, levels_cons_plain ht, ih hts]
    rfl

namespace Select

/-- The tokens of the counts. -/
def countsTokens (s : Select) : List Token := countTokens "LIMIT" s.limit ++ countTokens "OFFSET" s.offset

/-- The counts start with a keyword of their own, if there are any. -/
theorem head?_countsTokens (s : Select) : ∀ t ∈ s.countsTokens.head?, t ∈ countClauses := by
  unfold countsTokens
  intro t ht
  cases hlimit : s.limit with
  | some n =>
    rw [hlimit] at ht
    cases ht
    exact List.mem_cons_self
  | none =>
    cases hoffset : s.offset with
    | some n =>
      rw [hlimit, hoffset] at ht
      cases ht
      exact List.mem_cons_of_mem _ List.mem_cons_self
    | none =>
      rw [hlimit, hoffset] at ht
      cases ht

/-- A count behind other tokens is read back, if none of these is its keyword. -/
theorem countOf?_append {known : Token → Prop} {word : String} {front rest : List Token}
    (hfront : Nested known (· ≠ keyword word) front) (hrest : Nested known (· ≠ keyword word) rest)
    (n : Option Nat) : countOf? (keyword word) (front ++ (countTokens word n ++ rest)) = some n := by
  unfold countOf?
  rw [hfront.levels_append,
    List.dropWhile_append_of_pos (levels_ne rfl (not_not_intro rfl) hfront)]
  cases n with
  | none =>
    rw [countTokens, List.nil_append,
      List.dropWhile_eq_nil_iff.mpr (levels_ne rfl (not_not_intro rfl) hrest)]
  | some n =>
    have htokens : countTokens word (some n) ++ rest =
        keyword word :: .word (Text.digits n) :: rest := rfl
    rw [htokens, levels_cons_plain rfl, levels_cons_plain rfl, List.dropWhile_cons_of_neg (by simp)]
    show (natural? (Text.digits n)).map some = _
    rw [natural?_digits, Option.map_some]

section Clause

variable {r : Renderer} (hr : r.quoteIdentifiers = true)
include hr

theorem keyOfTokens?_keyTokens (k : OrderKey) : keyOfTokens? (keyTokens r k) = some k := by
  have hwritten : r.writesName k.field = true := by
    unfold Renderer.writesName
    rw [hr, Bool.true_or]
  have hname := (reads_identifier hwritten).2
  obtain ⟨field, descending⟩ := k
  cases descending with
  | false =>
    show keyOfTokens? [.ofColumn r field, keyword "ASC"] = _
    rw [keyOfTokens?, if_pos rfl, hname]
    rfl
  | true =>
    show keyOfTokens? [.ofColumn r field, keyword "DESC"] = _
    rw [keyOfTokens?, if_neg (by decide), if_pos rfl, hname]
    rfl

/-- A token between commas is a name or a direction. -/
theorem of_mem_keyTokens {P : Token → Prop} (hname : ∀ cs, P (.name cs)) (hasc : P (keyword "ASC"))
    (hdesc : P (keyword "DESC")) (k : OrderKey) : ∀ t ∈ keyTokens r k, P t := by
  unfold keyTokens
  rw [ofColumn_eq_name hr]
  refine List.forall_mem_cons.mpr ⟨hname _, List.forall_mem_singleton.mpr ?_⟩
  cases k.descending with
  | false => exact hasc
  | true => exact hdesc

theorem of_mem_keys {P : Token → Prop} (hname : ∀ cs, P (.name cs)) (hasc : P (keyword "ASC"))
    (hdesc : P (keyword "DESC")) (hcomma : P (.symbol ',')) (order : List OrderKey) :
    ∀ t ∈ List.intercalate [.symbol ','] (order.map (keyTokens r)), P t := by
  intro t ht
  rcases mem_intercalate ht with ht | ⟨ts, hts, ht⟩
  · exact List.mem_singleton.mp ht ▸ hcomma
  · obtain ⟨k, _, rfl⟩ := List.mem_map.mp hts
    exact of_mem_keyTokens hr hname hasc hdesc k t ht

/-- The keys are found between the commas. -/
theorem keysOfTokens?_keys {order : List OrderKey} (hne : order ≠ []) :
    keysOfTokens? (keyword "BY" :: List.intercalate [.symbol ','] (order.map (keyTokens r))) =
      some order := by
  have hcomma : ∀ ts ∈ order.map (keyTokens r), Token.symbol ',' ∉ ts := by
    intro ts hts hmem
    obtain ⟨k, _, rfl⟩ := List.mem_map.mp hts
    exact of_mem_keyTokens (P := (· ≠ .symbol ',')) hr nofun nofun nofun k _ hmem rfl
  have hsplit : (List.intercalate [.symbol ','] (order.map (keyTokens r))).splitOn (.symbol ',') =
      order.map (keyTokens r) :=
    List.splitOn_intercalate _ hcomma (List.map_eq_nil_iff.not.mpr hne)
  show (if keyword "BY" = keyword "BY" then _ else none) = _
  rw [if_pos rfl, hsplit]
  exact Outcome.mapM_map_eq_some fun k _ => keyOfTokens?_keyTokens hr k

/-- The keys end in front of the counts. -/
theorem keysOfTokens?_front {order : List OrderKey} (hne : order ≠ []) {counts : List Token}
    (hcounts : ∀ t ∈ counts.head?, t ∈ countClauses) :
    keysOfTokens? (((levels 0 (keyword "BY" :: List.intercalate [.symbol ','] (order.map (keyTokens r))
      ++ counts)).takeWhile fun p => !(p.2 == 0 && countClauses.contains p.1)).map Prod.fst) =
        some order := by
  have hplain : ∀ t ∈ keyword "BY" :: List.intercalate [.symbol ','] (order.map (keyTokens r)),
      t.isParenthesis = false ∧ (!countClauses.contains t) = true :=
    List.forall_mem_cons.mpr ⟨⟨rfl, rfl⟩,
      of_mem_keys hr (fun _ => ⟨rfl, rfl⟩) ⟨rfl, rfl⟩ ⟨rfl, rfl⟩ ⟨rfl, rfl⟩ order⟩
  have hkeys : ∀ p ∈ (keyword "BY" :: List.intercalate [.symbol ','] (order.map (keyTokens r))).map
      fun t => (t, 0), (!(p.2 == 0 && countClauses.contains p.1)) = true :=
    List.forall_mem_map.mpr fun t ht => (hplain t ht).2
  rw [levels_of_plain fun t ht => (hplain t ht).1, List.takeWhile_append_of_pos hkeys,
    takeWhile_levels_eq_nil (by decide) hcounts, List.append_nil, List.map_map]
  show keysOfTokens? (List.map id _) = _
  rw [List.map_id]
  exact keysOfTokens?_keys hr hne

/-- The ordering of a statement is read back from its tokens. -/
theorem orderOf?_tokens (s : Select) : orderOf? (s.tokens r) = some s.order := by
  have hseparators (t : Token) (ht : t ∉ separators) : t ≠ keyword "ORDER" := by
    rintro rfl
    exact ht (by decide)
  have hfront : Nested (Token.IsWritten s.names) (· ≠ keyword "ORDER")
      (s.headTokens r ++ whereTokens (s.conditionTokens r)) :=
    nested_frontTokens hr hseparators (by decide) (by decide) (List.Subset.refl _)
  have htokens : s.tokens r = s.headTokens r ++ whereTokens (s.conditionTokens r) ++
      (orderTokens r s.order ++ s.countsTokens) := by
    rw [tokens, tailTokens, countsTokens, List.append_assoc (orderTokens r s.order)]
  unfold orderOf?
  rw [htokens, hfront.levels_append,
    List.dropWhile_append_of_pos (levels_ne rfl (not_not_intro rfl) hfront)]
  cases horder : s.order with
  | nil =>
    have hcounts : Nested (Token.IsWritten s.names) (· ≠ keyword "ORDER") s.countsTokens :=
      .append (nested_countTokens hseparators rfl (by decide) s.limit)
        (nested_countTokens hseparators rfl (by decide) s.offset)
    rw [orderTokens, List.nil_append,
      List.dropWhile_eq_nil_iff.mpr (levels_ne rfl (not_not_intro rfl) hcounts)]
  | cons k order =>
    let keys := keyword "BY" :: List.intercalate [.symbol ','] ((k :: order).map (keyTokens r))
    have horderTokens : orderTokens r (k :: order) = keyword "ORDER" :: keys := rfl
    rw [horderTokens, List.cons_append, levels_cons_plain rfl, List.dropWhile_cons_of_neg (by decide)]
    exact keysOfTokens?_front hr (List.cons_ne_nil k order) s.head?_countsTokens

/-- The counts of a statement are read back from its tokens. -/
theorem countOf?_tokens (s : Select) :
    countOf? (keyword "LIMIT") (s.tokens r) = some s.limit ∧
      countOf? (keyword "OFFSET") (s.tokens r) = some s.offset := by
  have hseparators {word : Token} (hword : word ∈ separators) (t : Token) (ht : t ∉ separators) :
      t ≠ word := fun heq => ht (heq ▸ hword)
  have hfront {word : Token} (hword : word ∈ separators) (hwhere : keyword "WHERE" ≠ word)
      (hand : andToken ≠ word) (horder : keyword "ORDER" ≠ word) :
      Nested (Token.IsWritten s.names) (· ≠ word)
        (s.headTokens r ++ whereTokens (s.conditionTokens r) ++ orderTokens r s.order) :=
    .append (nested_frontTokens hr (hseparators hword) hwhere hand (List.Subset.refl _))
      (nested_orderTokens hr (hseparators hword) horder fun k hk => field_mem_names hk)
  have htokens : s.tokens r = s.headTokens r ++ whereTokens (s.conditionTokens r) ++
      orderTokens r s.order ++ (countTokens "LIMIT" s.limit ++ countTokens "OFFSET" s.offset) := by
    rw [tokens, tailTokens]
    simp only [List.append_assoc]
  constructor
  · have hoffset : Nested (Token.IsWritten s.names) (· ≠ keyword "LIMIT")
        (countTokens "OFFSET" s.offset) :=
      nested_countTokens (hseparators (by decide)) rfl (by decide) s.offset
    rw [htokens]
    exact countOf?_append (hfront (by decide) (by decide) (by decide) (by decide)) hoffset s.limit
  · have hlimit : Nested (Token.IsWritten s.names) (· ≠ keyword "OFFSET")
        (countTokens "LIMIT" s.limit) :=
      nested_countTokens (hseparators (by decide)) rfl (by decide) s.limit
    have hcounts := countOf?_append
      (Nested.append (hfront (by decide) (by decide) (by decide) (by decide)) hlimit) .nil s.offset
    rwa [List.append_nil, List.append_assoc, ← htokens] at hcounts

/-- The clauses of a statement are read back from its tokens. -/
theorem ofTokens?_tokens (s : Select) : Clauses.ofTokens? (s.tokens r) = some s.clauses := by
  obtain ⟨hlimit, hoffset⟩ := countOf?_tokens hr s
  unfold Clauses.ofTokens?
  rw [orderOf?_tokens hr, hlimit, hoffset]
  rfl

end Clause

/-- In any dialect the text of a statement ends with its clauses. -/
theorem exists_chars_eq (r : Renderer) (s : Select) : ∃ front, s.chars r = front ++ s.clauses.chars r := by
  refine ⟨"SELECT * FROM ".toList ++ r.identifier s.table ++ spaced (whereChars (s.conditions r)), ?_⟩
  unfold chars Clauses.chars
  simp only [List.append_assoc]
  rfl

end Select

namespace Statement

/-- The tokens of the text of a statement. -/
theorem tokens?_text (s : Statement) :
    tokens? (s.text .standard).toList = some (s.select.tokens .standard) := by
  have hread : Lexer.Reads (s.select.chars .standard) (s.select.tokens .standard) :=
    s.select.reads_chars rfl fun _ _ => rfl
  rw [text, String.toList_ofList]
  exact Lexer.tokens?_eq_of_reads hread

/-- The clauses of a statement are read back from its text. -/
theorem ofText?_text (s : Statement) : Clauses.ofText? (s.text .standard) = some s.select.clauses := by
  rw [Clauses.ofText?, tokens?_text, Option.bind_some, Select.ofTokens?_tokens rfl]

variable {ρ : Type} [Record ρ]

/-- The text of the statement of a query has clauses that ask for the order of the query, reversed if the
statement says so. Whatever the counts of the query, every answer to these clauses on a window of sorted
rows without ties, arranged, is the slice that the page shows of the window; and there is an answer. -/
theorem arrange_fetched_eq_slice {table : String} {q : Query} {s : Statement}
    (h : ofQuery table q = .ok s) {window : List ρ} (hsorted : SortedBy q.order window)
    (hties : Untied q.order window) (front back : List ρ) :
    ∃ c, Clauses.ofText? (s.text .standard) = some c ∧
      (∀ r, ∃ cs, (s.text r).toList = cs ++ c.chars r) ∧
      c.order = directed s.reversed q.order ∧
      (∃ fetched, c.Fetches window fetched) ∧
      ∀ fetched, c.Fetches window fetched →
        s.arrange fetched =
          ((⟨front.length, front.length + window.length⟩ : Window).cut q.offset q.limit q.first
            q.last).slice (front ++ (window ++ back)) := by
  refine ⟨s.select.clauses, s.ofText?_text, fun r => ?_, order_of_ofQuery h, exists_fetches h hsorted, ?_⟩
  · rw [text, String.toList_ofList]
    exact s.select.exists_chars_eq r
  · intro fetched hf
    rw [slice_cut_eq_cutRows]
    exact arrange_eq_cutRows h hsorted hties hf

theorem arrange_fetched_youngest :
    ∃ s c fetched,
      ofQuery "people" { Query.all with order := [.desc "age", .asc "id"], last := some 2 } = .ok s ∧
      s.reversed = true ∧ Clauses.ofText? (s.text .standard) = some c ∧
      c.order = [.asc "age", .desc "id"] ∧ c.Fetches peopleByAge fetched ∧
      s.arrange fetched = (⟨2, 4⟩ : Window).slice peopleByAge := by
  have hstatement : ∃ s, ofQuery "people"
      { Query.all with order := [.desc "age", .asc "id"], last := some 2 } = .ok s ∧
        s.reversed = true := ⟨_, rfl, rfl⟩
  have hsorted : SortedBy [.desc "age", .asc "id"] peopleByAge := by decide +kernel
  have hties : Untied [.desc "age", .asc "id"] peopleByAge := by decide +kernel
  obtain ⟨s, hs, hreversed⟩ := hstatement
  obtain ⟨c, hc, _, horder, ⟨fetched, hf⟩, harrange⟩ := arrange_fetched_eq_slice hs hsorted hties [] []
  rw [hreversed] at horder
  exact ⟨s, c, fetched, hs, hreversed, hc, horder, hf, harrange fetched hf⟩

end Statement

end Sql

end RowQuery
