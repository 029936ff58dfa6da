import Mathlib.Data.List.Chain
import RowQuery.Proofs.Sql.Structure

/-!
# Comparisons with null

A comparison with null is true of no row. Equality with null is therefore written as a test for null, but
values that are not null themselves may still be written as `NULL`: infinities and NaNs have no literal.
Keyset predicates compare with whatever a cursor records, null included.

Results:
* `literal_eq_null_iff`: which values are written as `NULL`.
* `nullFree_intercalate`: comparisons with null are looked for piece by piece.
* `compares_with_null_iff`: exactly these values make a comparison with null, in the condition of a filter
  those of them that are not null.
* `compares_with_null_score`: a filter for a NaN and the cursor of a row without a score do.
-/

namespace RowQuery

/-- Whether a value has a literal of its own: null, infinities and NaNs have none. -/
def Value.hasLiteral : Value → Bool
  | .null => false
  | .float x => x.isFinite
  | _ => true

namespace Sql

/-- Whether a symbol is the last one of a comparison. -/
def Token.isRelation (t : Token) : Bool := t = .symbol '=' || t = .symbol '<' || t = .symbol '>'

/-- No comparison has `NULL` behind it. -/
def NullFree (ts : List Token) : Prop :=
  ts.IsChain fun t u => ¬(t.isRelation = true ∧ u = keyword "NULL")

instance (ts : List Token) : Decidable (NullFree ts) :=
  inferInstanceAs (Decidable (ts.IsChain _))

/-- The values that a predicate compares its column with. -/
def Predicate.operands : Predicate → List Value
  | .compare _ _ value => [value]
  | _ => []

/-- The values that a keyset predicate compares its columns with. -/
def Keyset.operands (k : Keyset) : List Value := k.branches.flatMap fun terms => terms.map KeyTerm.value

/-! ## Values written as null -/

theorem ne_null_of_isNumeric {cs : List Char} (h : isNumeric cs = true) : cs ≠ "NULL".toList := by
  rintro rfl
  exact absurd h (by decide)

/-- What stands between marks starts with the mark. -/
theorem enclose_ne_null {mark : Char} (h : mark ≠ 'N') (inside : List Char) :
    Quoted.enclose mark inside ≠ "NULL".toList :=
  fun heq => h (List.cons.inj heq).1

/-- The values that are written as `NULL` are those without a literal of their own. -/
theorem literal_eq_null_iff (v : Value) :
    Dialect.standard.literal v = "NULL".toList ↔ v.hasLiteral = false := by
  cases v with
  | null => exact iff_of_true rfl rfl
  | bool b => cases b <;> decide
  | int i => exact iff_of_false (ne_null_of_isNumeric (isNumeric_intDigits i.toInt)) nofun
  | float x =>
    show (if x.isFinite then x.plainChars else "NULL".toList) = _ ↔ x.isFinite = false
    cases hx : x.isFinite with
    | true => exact iff_of_false (ne_null_of_isNumeric (isNumeric_plainChars hx)) nofun
    | false => exact iff_of_true rfl rfl
  | string s => exact iff_of_false (enclose_ne_null (by decide) _) nofun
  | dateTime t => exact iff_of_false (enclose_ne_null (by decide) _) nofun
  | list items =>
    exact iff_of_false (fun heq => absurd (List.cons.inj heq).1 (by decide)) nofun

/-- Read as tokens, a value starts with `NULL` if it is written as it. -/
theorem head?_literalTokens_iff (v : Value) :
    (literalTokens v).head? = some (keyword "NULL") ↔ v.hasLiteral = false := by
  rw [← literal_eq_null_iff]
  cases v with
  | string s => exact iff_of_false nofun (enclose_ne_null (by decide) _)
  | dateTime t => exact iff_of_false nofun (enclose_ne_null (by decide) _)
  | list items =>
    exact iff_of_false nofun fun heq => absurd (List.cons.inj heq).1 (by decide)
  | null | bool _ | int _ | float _ =>
    show some (Token.word _) = some (.word "NULL".toList) ↔ _
    rw [Option.some.injEq, Token.word.injEq]

mutual

/-- A value has no comparison inside. -/
theorem isRelation_literalTokens (v : Value) : ∀ t ∈ literalTokens v, t.isRelation = false := by
  cases v with
  | list items =>
    have hseparated : ∀ t ∈ List.intercalate [.symbol ','] (eachLiteralTokens items),
        t.isRelation = false := by
      intro t ht
      rcases mem_intercalate ht with ht | ⟨ts, hts, ht⟩
      · rw [List.mem_singleton.mp ht]
        rfl
      · exact isRelation_eachLiteralTokens items ts hts t ht
    intro t ht
    rcases List.mem_append.mp ht with ht | ht
    · rcases List.mem_cons.mp ht with rfl | ht
      · rfl
      · exact hseparated t ht
    · rw [List.mem_singleton.mp ht]
      rfl
  | null | bool _ | int _ | float _ | string _ | dateTime _ => exact List.forall_mem_singleton.mpr rfl

theorem isRelation_eachLiteralTokens (items : List Value) :
    ∀ ts ∈ eachLiteralTokens items, ∀ t ∈ ts, t.isRelation = false := by
  cases items with
  | nil => exact fun ts hts => nomatch hts
  | cons v rest =>
    exact List.forall_mem_cons.mpr ⟨isRelation_literalTokens v, isRelation_eachLiteralTokens rest⟩

end

/-! ## Pieces -/

section Pieces

variable {ts us : List Token}

theorem nullFree_of_isRelation (h : ∀ t ∈ ts, t.isRelation = false) : NullFree ts := by
  induction ts with
  | nil => exact .nil
  | cons t ts ih =>
    obtain ⟨ht, hts⟩ := List.forall_mem_cons.mp h
    refine List.isChain_cons.mpr ⟨fun u _ hnull => ?_, ih hts⟩
    rw [ht] at hnull
    cases hnull.1

/-- Tokens one after the other, of which the later ones do not start with `NULL`. -/
theorem nullFree_append (h : us.head? ≠ some (keyword "NULL")) :
    NullFree (ts ++ us) ↔ NullFree ts ∧ NullFree us := by
  unfold NullFree
  rw [List.isChain_append]
  refine ⟨fun hall => ⟨hall.1, hall.2.1⟩, fun hboth => ⟨hboth.1, hboth.2, ?_⟩⟩
  rintro t _ _ hu ⟨_, rfl⟩
  exact h hu

theorem head?_append_ne_null (hts : ts.head? ≠ some (keyword "NULL"))
    (hus : us.head? ≠ some (keyword "NULL")) : (ts ++ us).head? ≠ some (keyword "NULL") := by
  cases ts with
  | nil => exact hus
  | cons t ts => exact hts

/-- Pieces between separators that do not start with `NULL`. -/
theorem nullFree_intercalate {separator : List Token} {items : List (List Token)}
    (hfree : NullFree separator) (hhead : separator.head? ≠ some (keyword "NULL"))
    (h : ∀ item ∈ items, item.head? ≠ some (keyword "NULL")) :
    (List.intercalate separator items).head? ≠ some (keyword "NULL") ∧
      (NullFree (List.intercalate separator items) ↔ ∀ item ∈ items, NullFree item) := by
  induction items with
  | nil => exact ⟨nofun, iff_of_true .nil nofun⟩
  | cons item items ih =>
    obtain ⟨hitem, hitems⟩ := List.forall_mem_cons.mp h
    obtain ⟨ihhead, ihfree⟩ := ih hitems
    cases items with
    | nil =>
      rw [List.intercalate_singleton, List.forall_mem_singleton]
      exact ⟨hitem, Iff.rfl⟩
    | cons next items =>
      have hbehind := head?_append_ne_null hhead ihhead
      rw [List.intercalate_cons_cons, List.append_assoc, nullFree_append hbehind,
        nullFree_append ihhead, ihfree, List.forall_mem_cons (a := item)]
      exact ⟨head?_append_ne_null hitem hbehind, and_congr_right' (and_iff_right hfree)⟩

/-- Tokens in parentheses. -/
theorem nullFree_group (h : ts.head? ≠ some (keyword "NULL")) :
    NullFree (.symbol '(' :: ts ++ [.symbol ')']) ↔ NullFree ts := by
  have hopen : NullFree [.symbol '('] := .singleton _
  have hclose : NullFree [.symbol ')'] := .singleton _
  rw [← List.singleton_append, nullFree_append (by decide), nullFree_append h]
  exact ⟨fun hall => hall.1.2, fun hfree => ⟨⟨hopen, hfree⟩, hclose⟩⟩

/-- A value behind a comparison. -/
theorem nullFree_comparison {t : Token} (ht : t.isRelation = true) (v : Value) :
    NullFree (t :: literalTokens v) ↔ v.hasLiteral = true := by
  have hliteral : NullFree (literalTokens v) := nullFree_of_isRelation (isRelation_literalTokens v)
  have hhead : (literalTokens v).head? ≠ some (keyword "NULL") ↔ v.hasLiteral = true := by
    rw [Ne, head?_literalTokens_iff, Bool.not_eq_false]
  rw [← hhead, NullFree, List.isChain_cons]
  constructor
  · exact fun h hnull => h.1 _ hnull ⟨ht, rfl⟩
  · intro h
    refine ⟨fun u hu hnull => h ?_, hliteral⟩
    rw [← hnull.2]
    exact hu

end Pieces

/-! ## Conditions -/

/-- The condition that a filter tests its field for equality with a value, or for inequality. -/
theorem Predicate.ofFilter_of_equality {f : Filter}
    (h : f.operator = .equals ∨ f.operator = .notEquals) :
    ∃ negated, ofFilter f = equality f.field negated f.value := by
  unfold ofFilter
  rcases h with h | h
  · exact ⟨false, by rw [h]⟩
  · exact ⟨true, by rw [h]⟩

/-- An equality compares with its value, unless that is null. -/
theorem Predicate.operands_equality (column : String) (negated : Bool) (v : Value) :
    (equality column negated v).operands = if v.isNull then [] else [v] := by
  unfold equality
  split <;> rfl

namespace Keyset

theorem exists_branch_of_mem {side : Side} {equals : List KeyTerm} {pairs : List (OrderKey × Value)}
    {p : OrderKey × Value} (h : p ∈ pairs) :
    ∃ terms ∈ branchesFrom side equals pairs, beyond side p ∈ terms := by
  induction pairs generalizing equals with
  | nil => cases h
  | cons q pairs ih =>
    rcases List.mem_cons.mp h with rfl | h
    · exact ⟨_, List.mem_cons_self, List.mem_append_right _ (List.mem_singleton_self _)⟩
    · have hrest : ∃ terms ∈ branchesFrom side (equals ++ [equal q]) pairs, beyond side p ∈ terms :=
        ih h
      obtain ⟨terms, hterms, hp⟩ := hrest
      exact ⟨terms, List.mem_cons_of_mem _ hterms, hp⟩

/-- A keyset predicate compares with the values that the cursor records for the leading keys. -/
theorem mem_operands_iff {order : List OrderKey} {c : Cursor} {side : Side} {k : Keyset}
    (h : ofCursor? order c side = some k) (v : Value) :
    v ∈ k.operands ↔ ∃ p ∈ c.leading order, p.2 = v := by
  obtain rfl := eq_of_ofCursor? h
  constructor
  · intro hv
    obtain ⟨terms, hterms, hv⟩ := List.mem_flatMap.mp hv
    obtain ⟨t, ht, rfl⟩ := List.mem_map.mp hv
    rcases (mem_branchesFrom hterms).2 t ht with hnone | ⟨p, hp, _, hvalue⟩
    · cases hnone
    · exact ⟨p, hp, hvalue.symm⟩
  · rintro ⟨p, hp, rfl⟩
    obtain ⟨terms, hterms, hbeyond⟩ := exists_branch_of_mem hp
    exact List.mem_flatMap.mpr ⟨terms, hterms, List.mem_map.mpr ⟨_, hbeyond, rfl⟩⟩

theorem exists_operand_iff {order : List OrderKey} {c : Cursor} {side : Side} {k : Keyset}
    (h : ofCursor? order c side = some k) (P : Value → Prop) :
    (∃ v ∈ k.operands, P v) ↔ ∃ p ∈ c.leading order, P p.2 := by
  constructor
  · rintro ⟨v, hv, hP⟩
    obtain ⟨p, hp, rfl⟩ := (mem_operands_iff h v).mp hv
    exact ⟨p, hp, hP⟩
  · rintro ⟨p, hp, hP⟩
    exact ⟨p.2, (mem_operands_iff h p.2).mpr ⟨p, hp, rfl⟩, hP⟩

end Keyset

section Text

variable {r : Renderer}

theorem ofColumn_ne_null {column : String} (h : r.writesName column = true) :
    Token.ofColumn r column ≠ keyword "NULL" := by
  intro hnull
  have hname := (reads_identifier h).2
  rw [hnull] at hname
  cases hname

theorem isRelation_ofColumn (column : String) : (Token.ofColumn r column).isRelation = false := by
  unfold Token.ofColumn
  split <;> rfl

/-- A column in front of other tokens. -/
theorem nullFree_column (column : String) {ts : List Token} :
    NullFree (.ofColumn r column :: ts) ↔ NullFree ts := by
  rw [NullFree, List.isChain_cons]
  refine and_iff_right fun u _ hnull => ?_
  rw [isRelation_ofColumn] at hnull
  cases hnull.1

/-- The condition of an equality has no comparison with null if its value is null, which is tested for, or
has a literal. -/
theorem Predicate.nullFree_equality (column : String) (negated : Bool) (v : Value) :
    NullFree ((equality column negated v).tokens r) ↔ v = .null ∨ v.hasLiteral = true := by
  unfold equality
  cases hnull : v.isNull with
  | true =>
    refine iff_of_true ?_ (.inl (Value.isNull_iff.mp hnull))
    cases negated <;> exact (nullFree_column column).mpr (by decide)
  | false =>
    have hne : v ≠ .null := fun h => Bool.false_ne_true (hnull.symm.trans (Value.isNull_iff.mpr h))
    rw [or_iff_right hne]
    cases negated with
    | false => exact (nullFree_column column).trans (nullFree_comparison rfl v)
    | true =>
      refine (nullFree_column column).trans (Iff.trans ?_ (nullFree_comparison (t := .symbol '=') rfl v))
      have hhead : (Token.symbol '=' :: literalTokens v).head? ≠ some (keyword "NULL") := nofun
      have hmark : NullFree ([.symbol '!'] ++ .symbol '=' :: literalTokens v) ↔ _ := nullFree_append hhead
      exact hmark.trans (and_iff_right (.singleton _))

theorem Keyset.nullFree_writtenTerm (t : KeyTerm) :
    NullFree (writtenTerm r t) ↔ t.value.hasLiteral = true := by
  have hrelation : (Token.symbol t.relation.symbol).isRelation = true := by
    cases t.relation <;> rfl
  exact (nullFree_column t.column).trans (nullFree_comparison hrelation t.value)

/-- A keyset predicate has no comparison with null if all values that it compares with have a literal. -/
theorem Keyset.nullFree_written {k : Keyset} (h : ∀ column ∈ k.columns, r.writesName column = true) :
    NullFree (k.written r) ↔ ∀ v ∈ k.operands, v.hasLiteral = true := by
  have hterms (terms : List KeyTerm) (hmem : terms ∈ k.branches) :
      (List.intercalate [andToken] (terms.map (writtenTerm r))).head? ≠ some (keyword "NULL") ∧
        (NullFree (List.intercalate [andToken] (terms.map (writtenTerm r))) ↔
          ∀ ts ∈ terms.map (writtenTerm r), NullFree ts) := by
    refine nullFree_intercalate (.singleton _) (by decide) fun ts hts => ?_
    obtain ⟨t, ht, rfl⟩ := List.mem_map.mp hts
    have hcolumn : t.column ∈ k.columns :=
      List.mem_flatMap.mpr ⟨terms, hmem, List.mem_map_of_mem ht⟩
    exact fun hhead => ofColumn_ne_null (h t.column hcolumn) (Option.some.inj hhead)
  have hbranches : NullFree (k.written r) ↔ ∀ ts ∈ k.branches.map (writtenBranch r), NullFree ts := by
    refine (nullFree_intercalate (.singleton _) (by decide) fun ts hts => ?_).2
    obtain ⟨terms, _, rfl⟩ := List.mem_map.mp hts
    exact fun hhead => absurd (Option.some.inj hhead) (by decide)
  rw [hbranches, List.forall_mem_map, operands, List.forall_mem_flatMap]
  refine forall₂_congr fun terms hmem => ?_
  rw [writtenBranch, nullFree_group (hterms terms hmem).1, (hterms terms hmem).2, List.forall_mem_map,
    List.forall_mem_map]
  exact forall₂_congr fun t _ => nullFree_writtenTerm t

end Text

/-- In the standard dialect the condition of a filter for equality or inequality compares with `NULL` if
and only if its operand is an infinity or a NaN, and a keyset predicate does if and only if the cursor
records one of these or null for a leading key. The values compared with say so whatever the columns are
called, and the text says so where they can be told from the rest of it. -/
theorem compares_with_null_iff {r : Renderer} (hr : r.dialect = .standard) :
    (∀ f : Filter, f.operator = .equals ∨ f.operator = .notEquals →
      ((∃ v ∈ (Predicate.ofFilter f).operands, r.dialect.literal v = "NULL".toList) ↔
        ∃ x, f.value = .float x ∧ x.isFinite = false) ∧
      (r.writesName f.field = true →
        ∃ ts, tokens? ((Predicate.ofFilter f).chars r) = some ts ∧
          (¬NullFree ts ↔ ∃ x, f.value = .float x ∧ x.isFinite = false))) ∧
    ∀ (order : List OrderKey) (c : Cursor) (side : Side) (k : Keyset),
      Keyset.ofCursor? order c side = some k →
      ((∃ v ∈ k.operands, r.dialect.literal v = "NULL".toList) ↔
        ∃ p ∈ c.leading order, p.2.hasLiteral = false) ∧
      ((∀ key ∈ order, r.writesName key.field = true) →
        ∃ ts, tokens? (k.chars r) = some ts ∧
          (¬NullFree ts ↔ ∃ p ∈ c.leading order, p.2.hasLiteral = false)) := by
  constructor
  · intro f hoperator
    obtain ⟨negated, hf⟩ := Predicate.ofFilter_of_equality hoperator
    have hvalue : (¬(f.value = .null ∨ f.value.hasLiteral = true)) ↔
        ∃ x, f.value = .float x ∧ x.isFinite = false := by
      cases f.value <;> simp [Value.hasLiteral]
    constructor
    · rw [hf, Predicate.operands_equality, ← hvalue, hr]
      simp only [literal_eq_null_iff]
      cases f.value <;> simp [Value.hasLiteral, Value.isNull]
    · intro hname
      have hcolumns : ∀ column ∈ (Predicate.ofFilter f).columns, r.writesName column = true := by
        intro column hcolumn
        rw [List.mem_singleton.mp (Predicate.columns_ofFilter f hcolumn)]
        exact hname
      refine ⟨_, Lexer.tokens?_eq_of_reads (Predicate.reads_chars hr hcolumns), ?_⟩
      rw [hf, Predicate.nullFree_equality, hvalue]
  · intro order c side k hk
    have hoperands := Keyset.exists_operand_iff hk fun v => v.hasLiteral = false
    constructor
    · rw [hr]
      simp only [literal_eq_null_iff]
      exact hoperands
    · intro hnames
      have hcolumns : ∀ column ∈ k.columns, r.writesName column = true := by
        intro column hcolumn
        obtain ⟨key, hkey, rfl⟩ := List.mem_map.mp (Keyset.columns_ofCursor? hk hcolumn)
        exact hnames key hkey
      refine ⟨_, Lexer.tokens?_eq_of_reads (reads_written hr hcolumns), ?_⟩
      rw [Keyset.nullFree_written hcolumns, ← hoperands]
      simp

/-- The hypothesis of `compares_with_null_iff`, for a filter that tests a field for a NaN. -/
theorem compares_with_null_nan :
    Renderer.standard.dialect = .standard ∧
      ∃ v ∈ (Predicate.ofFilter ⟨"score", .equals, .float ⟨0x7FF8000000000000⟩⟩).operands,
        Renderer.standard.dialect.literal v = "NULL".toList :=
  ⟨rfl, ((compares_with_null_iff (r := .standard) rfl).1 ⟨"score", .equals, _⟩ (.inl rfl)).1.mpr
    ⟨_, rfl, by decide⟩⟩

/-- A filter for a NaN, and the cursor of a row without a score, compare a column with `NULL`: neither
finds the rows that have these values. -/
theorem compares_with_null_score :
    (∃ ts, tokens? ((Predicate.ofFilter ⟨"score", .equals, .float ⟨0x7FF8000000000000⟩⟩).chars
      .standard) = some ts ∧ ¬NullFree ts) ∧
    ∃ k ts, Keyset.ofCursor? [.asc "score", .asc "id"] ⟨[("score", .null), ("id", .int 2)]⟩ .after =
      some k ∧ tokens? (k.chars .standard) = some ts ∧ ¬NullFree ts := by
  constructor
  · exact ⟨[.name "score".toList, .symbol '=', keyword "NULL"], rfl, by decide⟩
  · let score (c : Char) : List Token := [.name "score".toList, .symbol c, keyword "NULL"]
    let id : List Token := [.name "id".toList, .symbol '>', .word ['2']]
    exact ⟨⟨[[⟨"score", .gt, .null⟩], [⟨"score", .eq, .null⟩, ⟨"id", .gt, .int 2⟩]]⟩,
      .symbol '(' :: score '>' ++ [.symbol ')', orToken, .symbol '('] ++ score '=' ++ [andToken] ++ id
        ++ [.symbol ')'], rfl, by decide +kernel, by decide⟩

end Sql

end RowQuery
