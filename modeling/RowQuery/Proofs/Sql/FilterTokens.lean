import RowQuery.Proofs.Sql.Writing

/-!
# The condition of a filter, spelled out

The condition of a filter names the column of the filter and says its operator and the literals of its
operand. There are three exceptions: equality with null is a test for null, a test of a list for several
elements is one alternative for each of them, and membership in no values and the lack of any wanted
element are constants.

Results:
* `spells_ofFilter`: the predicate of a filter is written as a condition that spells out the filter.
-/

namespace RowQuery.Sql

/-- The tokens that hold a column against a pattern. -/
def patternTokens (column : String) (pattern : List Char) : List Token :=
  [.name column.toList, keyword "LIKE", .text pattern, keyword "ESCAPE", .text ['\\']]

/-- The tokens of a condition that spell out a filter. -/
inductive Spells (f : Filter) : List Token → Prop
  /-- The column, the operator and the literal of the operand. -/
  | compares (hop : f.operator ∈ [.equals, .notEquals, .lessThan, .lessThanOrEquals, .greaterThan,
        .greaterThanOrEquals])
      (hvalue : f.operator ∈ [.equals, .notEquals] → f.value.isNull = false) :
      Spells f (.name f.field.toList :: operatorTokens f.operator ++ literalTokens f.value)
  /-- The column and a test for null, which equality with null is as well. -/
  | isNull (hop : f.operator = .isNull ∨ f.operator = .equals ∧ f.value.isNull = true) :
      Spells f (.name f.field.toList :: operatorTokens .isNull)
  | isNotNull (hop : f.operator = .isNotNull ∨ f.operator = .notEquals ∧ f.value.isNull = true) :
      Spells f (.name f.field.toList :: operatorTokens .isNotNull)
  /-- The column, the operator and the literals of the operand in parentheses. -/
  | member (hop : f.operator ∈ [.whereIn, .whereNotIn]) (hitems : Predicate.items f.value ≠ []) :
      Spells f (.name f.field.toList :: operatorTokens f.operator ++ .symbol '(' ::
        List.intercalate [.symbol ','] ((Predicate.items f.value).map literalTokens) ++ [.symbol ')'])
  /-- The column and the pattern of the operand. -/
  | fits {pattern : List Char} (hop : f.operator ∈ [.contains, .startsWith, .endsWith, .arrayContains])
      (hpattern : Like.pattern? f.operator f.value.display = some pattern) :
      Spells f (patternTokens f.field pattern)
  /-- The column and the pattern of each element of the operand, as alternatives. -/
  | fitsAny (hop : f.operator = .arrayContainsAny) (hitems : Predicate.items f.value ≠ []) :
      Spells f (.symbol '(' :: List.intercalate [orToken] ((Predicate.items f.value).map fun v =>
        patternTokens f.field ('%' :: Like.escape v.display ++ ['%'])) ++ [.symbol ')'])
  /-- Nothing is a member of no values, or has one of no elements. -/
  | never (hop : f.operator ∈ [.whereIn, .arrayContainsAny]) (hitems : Predicate.items f.value = []) :
      Spells f [.word ['1'], .symbol '=', .word ['0']]
  /-- Everything is no member of no values. -/
  | always (hop : f.operator = .whereNotIn) (hitems : Predicate.items f.value = []) :
      Spells f [.word ['1'], .symbol '=', .word ['1']]

section Spelling

variable {r : Renderer} (hr : r.quoteIdentifiers = true) {f : Filter}
include hr

theorem ofColumn_eq_name (column : String) : Token.ofColumn r column = .name column.toList := if_pos hr

theorem clauseTokens_eq (column : String) (op : Operator) (rest : List Token) :
    Predicate.clauseTokens r column op rest = .name column.toList :: operatorTokens op ++ rest := by
  rw [Predicate.clauseTokens, ofColumn_eq_name hr]

theorem likeTokens_eq (column : String) {op : Operator} (hop : operatorTokens op = [keyword "LIKE"])
    {operand : Value} {pattern : List Char} (h : Like.pattern? op operand.display = some pattern) :
    Predicate.likeTokens r column op operand = patternTokens column pattern := by
  rw [Predicate.likeTokens, clauseTokens_eq hr, hop, h]
  rfl

theorem spells_equality (negated : Bool) (hop : f.operator = if negated then .notEquals else .equals) :
    Spells f ((Predicate.equality f.field negated f.value).tokens r) := by
  unfold Predicate.equality
  cases hnull : f.value.isNull with
  | true =>
    cases negated with
    | true =>
      have hspells : Spells f _ := .isNotNull (.inr ⟨hop, hnull⟩)
      rwa [← List.append_nil (_ :: operatorTokens .isNotNull), ← clauseTokens_eq hr] at hspells
    | false =>
      have hspells : Spells f _ := .isNull (.inr ⟨hop, hnull⟩)
      rwa [← List.append_nil (_ :: operatorTokens .isNull), ← clauseTokens_eq hr] at hspells
  | false =>
    have hmem : f.operator ∈ [Operator.equals, .notEquals, .lessThan, .lessThanOrEquals, .greaterThan,
        .greaterThanOrEquals] := by
      rw [hop]
      cases negated <;> decide
    have hspells : Spells f _ := .compares hmem fun _ => hnull
    rw [← clauseTokens_eq hr, hop] at hspells
    cases negated <;> exact hspells

theorem spells_membership (negated : Bool) (hop : f.operator = if negated then .whereNotIn else .whereIn) :
    Spells f ((Predicate.membership f.field negated (Predicate.items f.value)).tokens r) := by
  cases hitems : Predicate.items f.value with
  | nil =>
    cases negated with
    | true => exact .always hop hitems
    | false => exact .never (hop ▸ List.mem_cons_self) hitems
  | cons v vs =>
    have hmem : f.operator ∈ [Operator.whereIn, .whereNotIn] := by
      rw [hop]
      cases negated <;> decide
    have hspells : Spells f _ := .member hmem (hitems ▸ List.cons_ne_nil v vs)
    rw [List.append_assoc, ← eachLiteralTokens_eq_map, hitems, hop] at hspells
    show Spells f (Predicate.clauseTokens r f.field _ (literalTokens (.list (v :: vs))))
    rwa [clauseTokens_eq hr, literalTokens]

theorem spells_anyElement (hop : f.operator = .arrayContainsAny) :
    Spells f ((Predicate.anyElement f.field (Predicate.items f.value)).tokens r) := by
  cases hitems : Predicate.items f.value with
  | nil => exact .never (hop ▸ List.mem_cons_of_mem _ List.mem_cons_self) hitems
  | cons v vs =>
    have hlike : Predicate.likeTokens r f.field .arrayContainsAny = fun v =>
        patternTokens f.field ('%' :: Like.escape v.display ++ ['%']) :=
      funext fun _ => likeTokens_eq hr f.field rfl rfl
    have hspells : Spells f _ := .fitsAny hop (hitems ▸ List.cons_ne_nil v vs)
    rw [hitems, ← hlike] at hspells
    exact hspells

theorem spells_like {op : Operator} (hop : f.operator = op)
    (hmem : op ∈ [Operator.contains, .startsWith, .endsWith, .arrayContains]) :
    Spells f (Predicate.likeTokens r f.field op f.value) := by
  have hlike : operatorTokens op = [keyword "LIKE"] ∧
      ∃ pattern, Like.pattern? op f.value.display = some pattern := by
    simp only [List.mem_cons, List.not_mem_nil, or_false] at hmem
    rcases hmem with rfl | rfl | rfl | rfl <;> exact ⟨rfl, _, rfl⟩
  obtain ⟨htokens, pattern, hpattern⟩ := hlike
  rw [likeTokens_eq hr f.field htokens hpattern]
  subst hop
  exact .fits hmem hpattern

theorem spells_compare {op : Operator} (hop : f.operator = op)
    (hmem : op ∈ [Operator.lessThan, .lessThanOrEquals, .greaterThan, .greaterThanOrEquals]) :
    Spells f (Predicate.clauseTokens r f.field op (literalTokens f.value)) := by
  subst hop
  have hordered : ∀ op ∈ [Operator.lessThan, .lessThanOrEquals, .greaterThan, .greaterThanOrEquals],
      op ∉ [Operator.equals, .notEquals] := by decide
  rw [clauseTokens_eq hr]
  exact .compares (List.mem_cons_of_mem _ (List.mem_cons_of_mem _ hmem)) fun h => absurd h (hordered _ hmem)

variable (f) in
/-- The predicate of a filter is written as a condition that spells out the filter. -/
theorem spells_ofFilter : Spells f ((Predicate.ofFilter f).tokens r) := by
  have hnull (op : Operator) : Predicate.clauseTokens r f.field op [] =
      .name f.field.toList :: operatorTokens op := by
    rw [clauseTokens_eq hr, List.append_nil]
  unfold Predicate.ofFilter
  cases hop : f.operator with
  | equals => exact spells_equality hr false hop
  | notEquals => exact spells_equality hr true hop
  | lessThan | lessThanOrEquals | greaterThan | greaterThanOrEquals =>
    exact spells_compare hr hop (by decide)
  | isNull =>
    show Spells f (Predicate.clauseTokens r f.field .isNull [])
    rw [hnull]
    exact .isNull (.inl hop)
  | isNotNull =>
    show Spells f (Predicate.clauseTokens r f.field .isNotNull [])
    rw [hnull]
    exact .isNotNull (.inl hop)
  | whereIn => exact spells_membership hr false hop
  | whereNotIn => exact spells_membership hr true hop
  | contains | startsWith | endsWith | arrayContains => exact spells_like hr hop (by decide)
  | arrayContainsAny => exact spells_anyElement hr hop

end Spelling

end RowQuery.Sql
