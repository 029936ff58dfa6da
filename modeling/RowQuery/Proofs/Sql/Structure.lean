import Mathlib.Data.List.Forall2
import RowQuery.Proofs.Sql.FilterTokens
import RowQuery.Proofs.Sql.KeysetWindow
import RowQuery.Proofs.Sql.Nesting

/-!
# The structure of statements

The text of a statement has the structure of its query, whatever the table and the fields are called and
whatever values the query has: names and strings are single tokens, so nothing inside them is a
parenthesis, a keyword or the end of a condition.

Results:
* `Predicate.nested`, `Select.nested_conditions`: a condition is balanced, and no keyword that
  separates conditions or clauses stands outside its parentheses.
* `text_structured`: the conditions of the text are those of the filters, spelled out, and of the cursors.
-/

namespace RowQuery

/-- The fields that a query names in its filters and its ordering. -/
def Query.fields (q : Query) : List String := q.filters.map Filter.field ++ q.order.map OrderKey.field

/-- The cursors that a query sets, with the rows that each of them keeps. -/
def Query.sides (q : Query) : List (Cursor × Sql.Side) :=
  q.after.toList.map (fun c => (c, .after)) ++ q.before.toList.map fun c => (c, .before)

namespace Sql

/-- The standard dialect with names in quotes. -/
def Renderer.standard : Renderer := ⟨.standard, true⟩

/-- Tokens with the structure of a query: balanced, without other names than those of the query, without
other words than keywords and numbers, without an alternative to the conditions, and with the condition
of each filter and each cursor in order, where those of the filters come first and spell them out. -/
structure Structured (r : Renderer) (table : String) (q : Query) (ts : List Token) : Prop where
  balanced : isBalanced 0 ts = true
  names : ∀ cs, .name cs ∈ ts → String.ofList cs ∈ table :: q.fields
  words : ∀ cs, .word cs ∈ ts → String.ofList cs ∈ keywords ∨ isNumeric cs = true
  no_alternative : (orToken, 0) ∉ levels 0 ts
  conditions : (conditionsOf ts).map some =
    q.filters.map (fun f => tokens? ((Predicate.ofFilter f).chars r)) ++
      q.sides.map fun p => (Keyset.ofCursor? q.order p.1 p.2).bind fun k =>
        tokens? ('(' :: k.chars r ++ [')'])
  filters : List.Forall₂ Spells q.filters ((conditionsOf ts).take q.filters.length)

namespace Token

/-- Names are known ones, and words are keywords or numbers. -/
def IsWritten (names : List String) : Token → Prop
  | .name cs => String.ofList cs ∈ names
  | .word cs => String.ofList cs ∈ keywords ∨ isNumeric cs = true
  | _ => True

/-- Keywords, strings and symbols that are no parentheses. -/
def isFixed : Token → Bool
  | .word cs => keywords.contains (String.ofList cs)
  | .symbol c => !(Token.symbol c).isParenthesis
  | .text _ => true
  | .name _ => false

end Token

/-- Balanced tokens with no keyword that separates conditions or clauses outside their parentheses. -/
abbrev Unseparated (names : List String) : List Token → Prop :=
  Nested (Token.IsWritten names) (· ∉ separators)

/-- Balanced tokens of clauses that follow the conditions. -/
abbrev Trailing (names : List String) : List Token → Prop :=
  Nested (Token.IsWritten names) (· ∉ [keyword "WHERE", orToken])

section Pieces

variable {names : List String} {outer : Token → Prop}

theorem nested_fixed {ts : List Token} (h : ts.all Token.isFixed = true) (houter : ∀ t ∈ ts, outer t) :
    Nested (Token.IsWritten names) outer ts := by
  refine .of_forall fun t ht => ?_
  have hfixed := List.all_eq_true.mp h t ht
  refine ⟨?_, houter t ht, ?_⟩
  · cases t with
    | word cs => exact .inl (List.contains_iff_mem.mp hfixed)
    | name cs => cases hfixed
    | text cs => trivial
    | symbol c => trivial
  · cases t with
    | word cs | name cs | text cs => rfl
    | symbol c => exact (Bool.not_eq_true' _).mp hfixed

theorem nested_text (cs : List Char) : Unseparated names [.text cs] := by
  refine .token trivial (fun hmem => ?_) rfl
  obtain ⟨_, hword, _⟩ := exists_word_of_mem_separators hmem
  cases hword

theorem nested_number {cs : List Char} (h : isNumeric cs = true) : Unseparated names [.word cs] := by
  refine .token (.inr h) (fun hmem => ?_) rfl
  obtain ⟨_, hword, hnumber⟩ := exists_word_of_mem_separators hmem
  cases hword
  exact Bool.false_ne_true (hnumber.symm.trans h)

theorem nested_column {r : Renderer} (hr : r.quoteIdentifiers = true) {column : String}
    (h : column ∈ names) : Unseparated names [.ofColumn r column] := by
  rw [ofColumn_eq_name hr]
  refine .token ?_ (fun hmem => ?_) rfl
  · show String.ofList column.toList ∈ names
    rw [String.ofList_toList]
    exact h
  · obtain ⟨_, hword, _⟩ := exists_word_of_mem_separators hmem
    cases hword

/-! ## Values -/

mutual

/-- A value of any kind is one token or a group of tokens in parentheses. -/
theorem nested_literalTokens (v : Value) :
    Unseparated names (literalTokens v) := by
  cases v with
  | null => exact nested_fixed rfl (by decide)
  | bool b =>
    cases b with
    | true => exact nested_number rfl
    | false => exact nested_number rfl
  | int i => exact nested_number (isNumeric_intDigits i.toInt)
  | float x =>
    show Unseparated names [.word (if x.isFinite then x.plainChars else "NULL".toList)]
    split
    · next hfinite => exact nested_number (isNumeric_plainChars hfinite)
    · exact nested_fixed rfl (by decide)
  | string s => exact nested_text s.toList
  | dateTime t => exact nested_text (t.chars .millis)
  | list items =>
    refine .group (.intercalate (nested_fixed rfl fun _ _ => trivial) ?_)
    rw [eachLiteralTokens_eq_map]
    intro ts hts
    obtain ⟨v, hv, rfl⟩ := List.mem_map.mp hts
    exact (nested_eachLiteral items v hv).mono fun _ _ => trivial

theorem nested_eachLiteral (items : List Value) :
    ∀ v ∈ items, Unseparated names (literalTokens v) := by
  cases items with
  | nil => exact fun v hv => nomatch hv
  | cons w rest =>
    intro v hv
    rcases List.mem_cons.mp hv with hv | hv
    · rw [hv]
      exact nested_literalTokens w
    · exact nested_eachLiteral rest v hv

end

end Pieces

/-! ## Conditions -/

section Conditions

variable {r : Renderer} (hr : r.quoteIdentifiers = true) {names : List String}
include hr

theorem nested_clauseTokens {column : String} (h : column ∈ names) (op : Operator) {ts : List Token}
    (hrest : Unseparated names ts) :
    Unseparated names (Predicate.clauseTokens r column op ts) := by
  have hoperator : Unseparated names (operatorTokens op) := by
    cases op <;> exact nested_fixed rfl (by decide)
  exact .append (.append (nested_column hr h) hoperator) hrest

theorem nested_likeTokens {column : String} (h : column ∈ names) (op : Operator) (operand : Value) :
    Unseparated names (Predicate.likeTokens r column op operand) := by
  have hescape : Unseparated names [keyword "ESCAPE", .text ['\\']] :=
    nested_fixed rfl (by decide)
  exact nested_clauseTokens hr h op (.append (nested_text _) hescape)

/-- The condition of a filter. The alternatives of a test for several elements stand in parentheses. -/
theorem Predicate.nested {p : Predicate} (h : p.columns ⊆ names) :
    Unseparated names (p.tokens r) := by
  cases p with
  | null column negated => exact nested_clauseTokens hr (h List.mem_cons_self) _ .nil
  | compare column comparison value =>
    exact nested_clauseTokens hr (h List.mem_cons_self) _ (nested_literalTokens value)
  | member column negated vs =>
    exact nested_clauseTokens hr (h List.mem_cons_self) _ (nested_literalTokens (.list vs))
  | like column op operand => exact nested_likeTokens hr (h List.mem_cons_self) op operand
  | anyLike column op operands =>
    refine .group (.intercalate (nested_fixed rfl fun _ _ => trivial) ?_)
    intro ts hts
    obtain ⟨operand, _, rfl⟩ := List.mem_map.mp hts
    exact (nested_likeTokens hr (h List.mem_cons_self) op operand).mono fun _ _ => trivial
  | constant truth =>
    have hequals : Unseparated names [.symbol '='] :=
      nested_fixed rfl (by decide)
    cases truth with
    | true => exact .append (nested_number rfl) (.append hequals (nested_number rfl))
    | false => exact .append (nested_number rfl) (.append hequals (nested_number rfl))

/-- The condition of a cursor. Its branches stand in parentheses of their own. -/
theorem Keyset.nested {k : Keyset} (h : k.columns ⊆ names) :
    Unseparated names (.symbol '(' :: k.written r ++ [.symbol ')']) := by
  -- Inside a group any balanced tokens will do, an `OR` between branches and an `AND` between terms.
  refine .group (.intercalate (nested_fixed rfl fun _ _ => trivial) ?_)
  intro ts hts
  obtain ⟨terms, hterms, rfl⟩ := List.mem_map.mp hts
  refine .group (.intercalate (nested_fixed rfl fun _ _ => trivial) ?_)
  intro ts hts
  obtain ⟨t, ht, rfl⟩ := List.mem_map.mp hts
  have hcolumn : t.column ∈ names :=
    h (List.mem_flatMap.mpr ⟨terms, hterms, List.mem_map_of_mem ht⟩)
  have hrelation : Nested (Token.IsWritten names) (fun _ => True) [.symbol t.relation.symbol] := by
    cases t.relation <;> exact nested_fixed rfl fun _ _ => trivial
  exact .append ((nested_column hr hcolumn).mono fun _ _ => trivial)
    (.append hrelation ((nested_literalTokens t.value).mono fun _ _ => trivial))

end Conditions

/-! ## Statements -/

section Statements

variable {r : Renderer} {names : List String}

theorem not_mem_of_not_mem_separators (t : Token) (h : t ∉ separators) :
    t ∉ [keyword "WHERE", orToken] := by
  have hall : ∀ t ∈ [keyword "WHERE", orToken], t ∈ separators := by decide
  exact fun hmem => h (hall t hmem)

theorem Select.nested_countTokens {outer : Token → Prop} (houter : ∀ t ∉ separators, outer t)
    {word : String} (hfixed : [keyword word].all Token.isFixed = true) (hword : outer (keyword word))
    (n : Option Nat) : Nested (Token.IsWritten names) outer (countTokens word n) := by
  cases n with
  | none => exact .nil
  | some n =>
    exact .append (nested_fixed hfixed (List.forall_mem_singleton.mpr hword))
      ((nested_number (isNumeric_digits n)).mono houter)

variable (hr : r.quoteIdentifiers = true)
include hr

namespace Select

theorem nested_orderTokens {outer : Token → Prop} (houter : ∀ t ∉ separators, outer t)
    (horder : outer (keyword "ORDER")) {order : List OrderKey} (h : ∀ k ∈ order, k.field ∈ names) :
    Nested (Token.IsWritten names) outer (orderTokens r order) := by
  have hkey (k : OrderKey) (hk : k ∈ order) :
      Nested (Token.IsWritten names) outer (keyTokens r k) := by
    refine .append ((nested_column hr (h k hk)).mono houter) ?_
    cases k.descending <;>
      exact nested_fixed rfl (List.forall_mem_singleton.mpr (houter _ (by decide)))
  have hby : Nested (Token.IsWritten names) outer [keyword "ORDER", keyword "BY"] :=
    nested_fixed rfl (List.forall_mem_cons.mpr
      ⟨horder, List.forall_mem_singleton.mpr (houter _ (by decide))⟩)
  have hcomma : Nested (Token.IsWritten names) outer [.symbol ','] :=
    nested_fixed rfl (List.forall_mem_singleton.mpr (houter _ (by decide)))
  cases order with
  | nil => exact .nil
  | cons k order =>
    refine .append hby (.intercalate hcomma fun ts hts => ?_)
    obtain ⟨k, hk, rfl⟩ := List.mem_map.mp hts
    exact hkey k hk

variable {s : Select} (h : s.names ⊆ names)
include h

theorem nested_headTokens : Unseparated names (s.headTokens r) := by
  have hselect : Unseparated names [keyword "SELECT", .symbol '*', keyword "FROM"] :=
    nested_fixed rfl (by decide)
  exact .append hselect (nested_column hr (h List.mem_cons_self))

theorem nested_conditions :
    ∀ c ∈ s.conditionTokens r, Unseparated names c := by
  intro c hc
  rcases List.mem_append.mp hc with hc | hc
  · obtain ⟨p, hp, rfl⟩ := List.mem_map.mp hc
    exact Predicate.nested hr fun column hcolumn => h (columns_subset_names hp hcolumn)
  · obtain ⟨k, hk, rfl⟩ := List.mem_map.mp hc
    exact Keyset.nested hr fun column hcolumn => h (bound_columns_subset_names hk hcolumn)

theorem nested_tailTokens :
    Trailing names (s.tailTokens r) := by
  have horder : Trailing names (orderTokens r s.order) :=
    nested_orderTokens hr not_mem_of_not_mem_separators (by decide) fun k hk => h (field_mem_names hk)
  have hlimit : Trailing names (countTokens "LIMIT" s.limit) :=
    nested_countTokens not_mem_of_not_mem_separators rfl (by decide) s.limit
  have hoffset : Trailing names (countTokens "OFFSET" s.offset) :=
    nested_countTokens not_mem_of_not_mem_separators rfl (by decide) s.offset
  exact .append (.append horder hlimit) hoffset

end Select

end Statements

/-- What follows the conditions starts with a keyword of its own. -/
theorem Select.head_tailTokens (r : Renderer) (s : Select) :
    ∀ t ∈ (s.tailTokens r).head?, t ∈ laterClauses := by
  unfold tailTokens
  cases s.order with
  | cons k order =>
    intro t ht
    cases ht
    decide
  | nil =>
    cases s.limit with
    | some n =>
      intro t ht
      cases ht
      decide
    | none =>
      cases s.offset with
      | some n =>
        intro t ht
        cases ht
        decide
      | none => exact fun t ht => nomatch ht

section Clauses

variable {r : Renderer} (hr : r.quoteIdentifiers = true) {names : List String} {s : Select}
  {outer : Token → Prop} (houter : ∀ t ∉ separators, outer t)
include hr houter

/-- The clause of the conditions, of which only its own keywords may stand between conditions. -/
theorem Select.nested_whereTokens (hwhere : outer (keyword "WHERE")) (hand : outer andToken)
    (h : s.names ⊆ names) : Nested (Token.IsWritten names) outer (whereTokens (s.conditionTokens r)) := by
  have hconditions := nested_conditions hr h
  generalize s.conditionTokens r = conditions at hconditions
  cases conditions with
  | nil => exact .nil
  | cons c conditions =>
    have hkeyword : Nested (Token.IsWritten names) outer [keyword "WHERE"] :=
      nested_fixed rfl (List.forall_mem_singleton.mpr hwhere)
    refine .append hkeyword (.intercalate (nested_fixed rfl (List.forall_mem_singleton.mpr hand)) ?_)
    exact fun c hc => (hconditions c hc).mono houter

/-- What stands in front of the order. -/
theorem Select.nested_frontTokens (hwhere : outer (keyword "WHERE")) (hand : outer andToken)
    (h : s.names ⊆ names) :
    Nested (Token.IsWritten names) outer (s.headTokens r ++ whereTokens (s.conditionTokens r)) :=
  .append ((nested_headTokens hr h).mono houter) (nested_whereTokens hr houter hwhere hand h)

end Clauses

/-- No alternative stands beside the conditions of a statement. -/
theorem Select.nested_tokens {r : Renderer} (hr : r.quoteIdentifiers = true) {names : List String}
    {s : Select} (h : s.names ⊆ names) :
    Nested (Token.IsWritten names) (· ≠ orToken) (s.tokens r) := by
  have hseparators (t : Token) (ht : t ∉ separators) : t ≠ orToken := by
    rintro rfl
    exact ht (by decide)
  refine .append (nested_frontTokens hr hseparators (by decide) (by decide) h) ?_
  refine (nested_tailTokens hr h).mono ?_
  rintro _ hor rfl
  exact hor (by decide)

/-! ## Queries -/

theorem Predicate.columns_ofFilter (f : Filter) : (ofFilter f).columns ⊆ [f.field] := by
  have hequality (negated : Bool) : (equality f.field negated f.value).columns ⊆ [f.field] := by
    unfold equality
    split <;> exact List.Subset.refl _
  have hmembership (negated : Bool) (vs : List Value) :
      (membership f.field negated vs).columns ⊆ [f.field] := by
    cases vs with
    | nil => exact List.nil_subset _
    | cons v vs => exact List.Subset.refl _
  have hany (vs : List Value) : (anyElement f.field vs).columns ⊆ [f.field] := by
    cases vs with
    | nil => exact List.nil_subset _
    | cons v vs => exact List.Subset.refl _
  unfold ofFilter
  cases f.operator with
  | equals => exact hequality false
  | notEquals => exact hequality true
  | whereIn => exact hmembership false (items f.value)
  | whereNotIn => exact hmembership true (items f.value)
  | arrayContainsAny => exact hany (items f.value)
  | lessThan | lessThanOrEquals | greaterThan | greaterThanOrEquals | isNull | isNotNull | contains
  | startsWith | endsWith | arrayContains => exact List.Subset.refl _

theorem Keyset.columns_ofCursor? {order : List OrderKey} {c : Cursor} {side : Side} {k : Keyset}
    (h : ofCursor? order c side = some k) : k.columns ⊆ order.map OrderKey.field := by
  obtain rfl := eq_of_ofCursor? h
  intro column hcolumn
  obtain ⟨terms, hterms, hcolumn⟩ := List.mem_flatMap.mp hcolumn
  obtain ⟨t, ht, rfl⟩ := List.mem_map.mp hcolumn
  rcases (mem_branchesFrom hterms).2 t ht with hnone | ⟨p, hp, hfield, _⟩
  · cases hnone
  · rw [hfield]
    exact List.mem_map_of_mem ((c.map_fst_leading order).subset (List.mem_map_of_mem hp))

namespace Statement

theorem bound_eq_ok {order : List OrderKey} {side : Side} {c : Option Cursor} {bounds : List Keyset}
    (h : bound order side c = .ok bounds) :
    bounds.map some = c.toList.map fun c => Keyset.ofCursor? order c side := by
  cases c with
  | none =>
    cases h
    rfl
  | some c =>
    cases hk : Keyset.ofCursor? order c side with
    | some k =>
      rw [bound, hk] at h
      cases h
      exact congrArg (fun o => [o]) hk.symm
    | none =>
      rw [bound, hk] at h
      cases h

/-- The parts of a statement that its text names come from the query. -/
theorem ofQuery_parts {table : String} {q : Query} {s : Statement} (h : ofQuery table q = .ok s) :
    s.select.table = table ∧ s.select.filters = q.filters.map Predicate.ofFilter ∧
      s.select.bounds.map some = (q.sides.map fun p => Keyset.ofCursor? q.order p.1 p.2) ∧
      s.select.order.map OrderKey.field = q.order.map OrderKey.field := by
  obtain ⟨after, hafter, h⟩ := Outcome.bind_eq_ok.mp h
  obtain ⟨before, hbefore, h⟩ := Outcome.bind_eq_ok.mp h
  cases h
  refine ⟨rfl, rfl, ?_, ?_⟩
  · rw [List.map_append, bound_eq_ok hafter, bound_eq_ok hbefore, Query.sides, List.map_append,
      List.map_map, List.map_map]
    rfl
  · show (if countsFromEnd q then q.order.map OrderKey.reversed else q.order).map _ = _
    split
    · rw [List.map_map]
      rfl
    · rfl

theorem names_subset_fields {table : String} {q : Query} {s : Statement} (h : ofQuery table q = .ok s) :
    s.select.names ⊆ table :: q.fields := by
  obtain ⟨htable, hfilters, hbounds, horder⟩ := ofQuery_parts h
  have hfilter (p : Predicate) (hp : p ∈ s.select.filters) :
      p.columns ⊆ q.filters.map Filter.field := by
    rw [hfilters] at hp
    obtain ⟨f, hf, rfl⟩ := List.mem_map.mp hp
    intro column hcolumn
    rw [List.mem_singleton.mp (Predicate.columns_ofFilter f hcolumn)]
    exact List.mem_map_of_mem hf
  have hbound (k : Keyset) (hk : k ∈ s.select.bounds) : k.columns ⊆ q.order.map OrderKey.field := by
    have hsome : some k ∈ q.sides.map fun p => Keyset.ofCursor? q.order p.1 p.2 :=
      hbounds ▸ List.mem_map_of_mem hk
    obtain ⟨p, _, hcursor⟩ := List.mem_map.mp hsome
    exact Keyset.columns_ofCursor? hcursor
  unfold Select.names Query.fields
  rw [htable, horder]
  intro name hname
  rcases List.mem_append.mp hname with hname | hname
  · rcases List.mem_append.mp hname with hname | hname
    · rcases List.mem_cons.mp hname with rfl | hname
      · exact List.mem_cons_self
      · obtain ⟨p, hp, hcolumn⟩ := List.mem_flatMap.mp hname
        exact List.mem_cons_of_mem table (List.mem_append_left _ (hfilter p hp hcolumn))
    · obtain ⟨k, hk, hcolumn⟩ := List.mem_flatMap.mp hname
      exact List.mem_cons_of_mem table (List.mem_append_right _ (hbound k hk hcolumn))
  · exact List.mem_cons_of_mem table (List.mem_append_right _ hname)

/-- The conditions of a statement are those of the filters and cursors of its query. -/
theorem conditionTokens_map_some {table : String} {q : Query} {s : Statement}
    (h : ofQuery table q = .ok s) :
    (s.select.conditionTokens .standard).map some =
      q.filters.map (fun f => tokens? ((Predicate.ofFilter f).chars .standard)) ++
        q.sides.map fun p => (Keyset.ofCursor? q.order p.1 p.2).bind fun k =>
          tokens? ('(' :: k.chars .standard ++ [')']) := by
  obtain ⟨_, hfilters, hbounds, _⟩ := ofQuery_parts h
  have hfilter (p : Predicate) : tokens? (p.chars .standard) = some (p.tokens .standard) :=
    Lexer.tokens?_eq_of_reads (p.reads_chars rfl fun _ _ => rfl)
  have hbound (k : Keyset) : tokens? ('(' :: k.chars .standard ++ [')']) =
      some (.symbol '(' :: k.written .standard ++ [.symbol ')']) :=
    Lexer.tokens?_eq_of_reads (Lexer.readsClosed_parentheses (reads_written rfl fun _ _ => rfl)).reads
  have hsides : (q.sides.map fun p => (Keyset.ofCursor? q.order p.1 p.2).bind fun k =>
      tokens? ('(' :: k.chars .standard ++ [')'])) =
        s.select.bounds.map fun k => tokens? ('(' :: k.chars .standard ++ [')']) := by
    have hmap := congrArg (List.map fun o : Option Keyset =>
      o.bind fun k => tokens? ('(' :: k.chars .standard ++ [')'])) hbounds
    rw [List.map_map, List.map_map] at hmap
    exact hmap.symm
  rw [hsides, Select.conditionTokens, hfilters, List.map_append, List.map_map, List.map_map, List.map_map]
  simp only [Function.comp_def, hfilter, hbound]

/-- The conditions of the filters come first. -/
theorem take_conditionTokens {table : String} {q : Query} {s : Statement} (h : ofQuery table q = .ok s) :
    (s.select.conditionTokens .standard).take q.filters.length =
      q.filters.map fun f => (Predicate.ofFilter f).tokens .standard := by
  obtain ⟨_, hfilters, _, _⟩ := ofQuery_parts h
  rw [Select.conditionTokens, hfilters, List.map_map, List.take_left' (List.length_map _)]
  rfl

/-- The text of a statement has the structure of its query, whatever the table and the fields are called
and whatever values the query has. -/
theorem text_structured {table : String} {q : Query} {s : Statement} (h : ofQuery table q = .ok s) :
    ∃ ts, tokens? (s.text .standard).toList = some ts ∧ Structured .standard table q ts := by
  have hnames := names_subset_fields h
  have hread : Lexer.Reads (s.select.chars .standard) (s.select.tokens .standard) :=
    s.select.reads_chars rfl fun _ _ => rfl
  have hnested : Nested (Token.IsWritten (table :: q.fields)) (· ≠ orToken) (s.select.tokens .standard) :=
    Select.nested_tokens rfl hnames
  refine ⟨s.select.tokens .standard, ?_, ?_⟩
  · rw [text, String.toList_ofList]
    exact Lexer.tokens?_eq_of_reads hread
  · have hconditions : conditionsOf (s.select.tokens .standard) = s.select.conditionTokens .standard :=
      conditionsOf_statement (.inl (by decide)) (Select.nested_headTokens rfl hnames)
        (Select.nested_conditions rfl hnames)
        ((Select.nested_tailTokens rfl hnames).mono fun t ht hwhere => ht (hwhere ▸ List.mem_cons_self))
        (Select.head_tailTokens .standard s.select)
    refine ⟨hnested.isBalanced, ?_, ?_, hnested.not_mem_levels (not_not_intro rfl) rfl, ?_, ?_⟩
    · intro cs hcs
      exact (hnested.known_of_mem hcs).resolve_right Bool.false_ne_true
    · intro cs hcs
      exact (hnested.known_of_mem hcs).resolve_right Bool.false_ne_true
    · rw [hconditions, conditionTokens_map_some h]
    · rw [hconditions, take_conditionTokens h, List.forall₂_map_right_iff, List.forall₂_same]
      exact fun f _ => spells_ofFilter rfl f

/-- A query with a field and values that try to end their quotes. -/
def hostileQuery : Query :=
  { Query.all with
    filters := [⟨"name\" OR \"1\" = \"1", .equals, .string "' OR '1'='1"⟩,
      ⟨"tags", .arrayContainsAny, .list [.string "a') OR ('", .string "100%"]⟩]
    order := [.asc "id"]
    after := some ⟨[("id", .string "1) OR (1 = 1")]⟩
    first := some 10 }

theorem text_structured_hostile :
    ∃ s, ofQuery "people\"; --" hostileQuery = .ok s ∧
      ∃ ts, tokens? (s.text .standard).toList = some ts ∧
        Structured .standard "people\"; --" hostileQuery ts ∧ (conditionsOf ts).length = 3 := by
  have hstatement : ∃ s, ofQuery "people\"; --" hostileQuery = .ok s := ⟨_, rfl⟩
  obtain ⟨s, hs⟩ := hstatement
  obtain ⟨ts, hts, hstructured⟩ := text_structured hs
  refine ⟨s, hs, ts, hts, hstructured, ?_⟩
  have hlength := congrArg List.length hstructured.conditions
  rw [List.length_map] at hlength
  exact hlength

end Statement

end Sql

end RowQuery
