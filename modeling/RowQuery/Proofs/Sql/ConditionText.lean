import RowQuery.Proofs.Sql.Writing

/-!
# Reading conditions

The text of a condition is read as a test of operands, which are columns, integers, texts or null: a test
for null, a comparison of two operands, or a test for membership in a list of operands. The text of a
`WHERE` clause is read as the tests between its `AND`s.

Results:
* `Test.ofTokens?_tokens`: a predicate on integers and texts is read as the test that it makes.
* `conditions?_conjunctionChars`: the tests of a clause are read one by one.
-/

namespace RowQuery.Sql

/-- What a condition tests. -/
inductive Operand where
  | column (name : String)
  | constant (value : Value)
deriving DecidableEq

/-- A condition without patterns. -/
inductive Test where
  /-- The operand is null, or is not. -/
  | null (operand : Operand) (negated : Bool)
  | compare (left : Operand) (comparison : Comparison) (right : Operand)
  /-- The operand is among others, or is not. -/
  | member (operand : Operand) (negated : Bool) (items : List Operand)
deriving DecidableEq

/-- The operand that a token gives. -/
def Operand.ofToken? (t : Token) : Option Operand :=
  match t.name? with
  | some name => some (.column name)
  | none => if t = keyword "NULL" then some (.constant .null) else t.literal?.map .constant

def Comparison.ofTokens? (ts : List Token) : Option Comparison :=
  [Comparison.eq, .ne, .lt, .le, .gt, .ge].find? fun c => operatorTokens c.operator == ts

namespace Test

/-- The operands between commas in parentheses. -/
def itemsOfTokens? : List Token → Option (List Operand)
  | .symbol '(' :: rest =>
    if rest.getLast? = some (.symbol ')') then
      (rest.dropLast.splitOn (.symbol ',')).mapM fun
        | [t] => Operand.ofToken? t
        | _ => none
    else none
  | _ => none

/-- What is said of an operand. -/
def ofSaying? (o : Operand) (ts : List Token) : Option Test :=
  if ts = [keyword "IS", keyword "NULL"] then some (.null o false)
  else if ts = [keyword "IS", keyword "NOT", keyword "NULL"] then some (.null o true)
  else if ts.take 1 = [keyword "IN"] then (itemsOfTokens? (ts.drop 1)).map (.member o false)
  else if ts.take 2 = [keyword "NOT", keyword "IN"] then
    (itemsOfTokens? (ts.drop 2)).map (.member o true)
  else do
    let comparison ← Comparison.ofTokens? ts.dropLast
    let right ← Operand.ofToken? (← ts.getLast?)
    some (.compare o comparison right)

def ofTokens? : List Token → Option Test
  | [] => none
  | t :: rest => (Operand.ofToken? t).bind fun o => ofSaying? o rest

/-- The test that a text denotes. -/
def ofText? (cs : List Char) : Option Test := (tokens? cs).bind ofTokens?

end Test

/-- The tests of the conditions of a `WHERE` clause; a text without tokens has none. -/
def conditions? (cs : List Char) : Option (List Test) :=
  (tokens? cs).bind fun ts => if ts = [] then some [] else (ts.splitOn andToken).mapM Test.ofTokens?

namespace Predicate

/-- The test that a predicate makes, unless it is one of patterns. -/
def test? : Predicate → Option Test
  | .null column negated => some (.null (.column column) negated)
  | .compare column comparison value => some (.compare (.column column) comparison (.constant value))
  | .member column negated items => some (.member (.column column) negated (items.map .constant))
  | .constant truth =>
    some (.compare (.constant (.int 1)) .eq (.constant (.int (if truth then 1 else 0))))
  | .like .. | .anyLike .. => none

/-- A predicate on a column that can be told from the rest of the text and on integers and texts. -/
def IsPlain (r : Renderer) : Predicate → Prop
  | .null column _ => r.writesName column = true
  | .compare column _ value => r.writesName column = true ∧ value.isIntegerOrText = true
  | .member column _ items =>
    r.writesName column = true ∧ items ≠ [] ∧ ∀ v ∈ items, v.isIntegerOrText = true
  | .constant _ => True
  | .like .. | .anyLike .. => False

end Predicate

/-! ## Operands -/

theorem literalTokens_of_plain {v : Value} (h : v.isIntegerOrText = true) :
    literalTokens v = [.ofLiteral v] := by
  cases v with
  | int i => rfl
  | string s => rfl
  | null | bool _ | float _ | dateTime _ | list _ => cases h

theorem literal?_ofLiteral {v : Value} (h : v.isIntegerOrText = true) :
    (Token.ofLiteral v).literal? = some v := by
  have hwrites : (⟨.standard, true⟩ : Renderer).writesValue v = true := by
    rw [Renderer.writesValue, h, Bool.true_and, beq_iff_eq]
  exact (reads_literal hwrites).2

/-- The digits of an integer are no name. -/
theorem isPlainName_of_integer? {cs : List Char} {i : Int} (h : integer? cs = some i) :
    isPlainName cs = false := by
  cases cs with
  | nil => rfl
  | cons c cs =>
    by_cases hminus : c = '-'
    · subst hminus
      rfl
    · rw [integer?.eq_2 _ (by simpa using hminus)] at h
      obtain ⟨n, hn, _⟩ := Option.map_eq_some_iff.mp h
      unfold natural? at hn
      split at hn
      · next hdigits =>
        simp only [List.all_cons, Bool.and_eq_true] at hdigits
        have hhead : (c :: cs).head?.any (fun c => !c.isDigit) = false := by
          rw [List.head?_cons, Option.any_some, hdigits.2.1]
          rfl
        rw [isPlainName, hhead, Bool.and_false, Bool.false_and]
      · cases hn

theorem name?_of_literal? {t : Token} {v : Value} (h : t.literal? = some v) : t.name? = none := by
  cases t with
  | word cs =>
    obtain ⟨i, hi, _⟩ := Option.map_eq_some_iff.mp h
    obtain ⟨n, hn, _⟩ := Option.bind_eq_some_iff.mp hi
    exact if_neg (Bool.eq_false_iff.mp (isPlainName_of_integer? hn))
  | text cs => rfl
  | name cs => cases h
  | symbol c => cases h

namespace Operand

theorem ofToken?_ofColumn {r : Renderer} {column : String} (h : r.writesName column = true) :
    ofToken? (.ofColumn r column) = some (.column column) := by
  rw [ofToken?, (reads_identifier h).2]

theorem ofToken?_ofLiteral {v : Value} (h : v.isIntegerOrText = true) :
    ofToken? (.ofLiteral v) = some (.constant v) := by
  have hliteral := literal?_ofLiteral h
  have hnull : Token.ofLiteral v ≠ keyword "NULL" := by
    intro heq
    rw [heq] at hliteral
    cases hliteral
  rw [ofToken?, name?_of_literal? hliteral]
  show (if _ then _ else _) = _
  rw [if_neg hnull, hliteral]
  rfl

end Operand

/-! ## Tests -/

namespace Test

theorem ofSaying?_comparison (o : Operand) (c : Comparison) {t : Token} {right : Operand}
    (h : Operand.ofToken? t = some right) :
    ofSaying? o (operatorTokens c.operator ++ [t]) = some (.compare o c right) := by
  have hcomparison : Comparison.ofTokens? (operatorTokens c.operator) = some c := by
    cases c <;> rfl
  have hbehind : ofSaying? o (operatorTokens c.operator ++ [t]) = (do
      let comparison ← Comparison.ofTokens? (operatorTokens c.operator ++ [t]).dropLast
      let right ← Operand.ofToken? (← (operatorTokens c.operator ++ [t]).getLast?)
      some (.compare o comparison right)) := by
    cases c <;> rfl
  rw [hbehind, List.dropLast_concat, List.getLast?_concat, hcomparison]
  show (Operand.ofToken? t).bind _ = _
  rw [h]
  rfl

theorem itemsOfTokens?_literalTokens {vs : List Value} (hne : vs ≠ [])
    (h : ∀ v ∈ vs, v.isIntegerOrText = true) :
    itemsOfTokens? (literalTokens (.list vs)) = some (vs.map .constant) := by
  have hitems : eachLiteralTokens vs = vs.map fun v => [Token.ofLiteral v] := by
    rw [eachLiteralTokens_eq_map]
    exact List.map_congr_left fun v hv => literalTokens_of_plain (h v hv)
  have hcomma : ∀ ts ∈ vs.map fun v => [Token.ofLiteral v], .symbol ',' ∉ ts := by
    intro ts hts hmem
    obtain ⟨v, hv, rfl⟩ := List.mem_map.mp hts
    have hliteral := literal?_ofLiteral (h v hv)
    rw [← List.mem_singleton.mp hmem] at hliteral
    cases hliteral
  rw [literalTokens, List.cons_append, itemsOfTokens?, List.getLast?_concat, if_pos rfl,
    List.dropLast_concat, hitems, List.splitOn_intercalate _ hcomma (by simpa using hne)]
  exact Outcome.mapM_map_eq_some_map fun v hv => Operand.ofToken?_ofLiteral (h v hv)

/-- A predicate on integers and texts is read as the test that it makes. -/
theorem ofTokens?_tokens {r : Renderer} {p : Predicate} (h : p.IsPlain r) :
    ofTokens? (p.tokens r) = p.test? := by
  cases p with
  | null column negated =>
    rw [Predicate.tokens, Predicate.clauseTokens, List.append_nil, ofTokens?,
      Operand.ofToken?_ofColumn h]
    cases negated <;> rfl
  | compare column comparison value =>
    obtain ⟨hname, hvalue⟩ := h
    rw [Predicate.tokens, Predicate.clauseTokens, List.cons_append, ofTokens?,
      Operand.ofToken?_ofColumn hname, literalTokens_of_plain hvalue]
    exact ofSaying?_comparison _ comparison (Operand.ofToken?_ofLiteral hvalue)
  | member column negated items =>
    obtain ⟨hname, hne, hitems⟩ := h
    have hread := itemsOfTokens?_literalTokens hne hitems
    rw [Predicate.tokens, Predicate.clauseTokens, List.cons_append, ofTokens?,
      Operand.ofToken?_ofColumn hname]
    cases negated with
    | false =>
      show (itemsOfTokens? (literalTokens (.list items))).map _ = _
      rw [hread]
      rfl
    | true =>
      show (itemsOfTokens? (literalTokens (.list items))).map _ = _
      rw [hread]
      rfl
  | constant truth => cases truth <;> rfl
  | like column op operand => cases h
  | anyLike column op operands => cases h

end Test

/-! ## Texts -/

section Texts

variable {r : Renderer}

namespace Predicate

theorem IsPlain.writesName {p : Predicate} (h : p.IsPlain r) :
    ∀ column ∈ p.columns, r.writesName column = true := by
  intro column hcolumn
  cases p with
  | null c negated => exact List.mem_singleton.mp hcolumn ▸ h
  | compare c comparison value => exact List.mem_singleton.mp hcolumn ▸ h.1
  | member c negated items => exact List.mem_singleton.mp hcolumn ▸ h.1
  | constant truth => cases hcolumn
  | like c op operand => cases h
  | anyLike c op operands => cases h

theorem IsPlain.isSome_test? {p : Predicate} (h : p.IsPlain r) : p.test?.isSome = true := by
  cases p with
  | null column negated | compare column comparison value | member column negated items
  | constant truth => rfl
  | like column op operand => cases h
  | anyLike column op operands => cases h

/-- No token of a predicate separates conditions. -/
theorem IsPlain.andToken_not_mem_tokens {p : Predicate} (h : p.IsPlain r) : andToken ∉ p.tokens r := by
  have hoperand {t : Token} {o : Operand} (ht : Operand.ofToken? t = some o) : andToken ≠ t := by
    rintro rfl
    cases ht
  have hclause {column : String} (hname : r.writesName column = true) (op : Operator)
      {ts : List Token} (hts : andToken ∉ ts) : andToken ∉ clauseTokens r column op ts := by
    have hoperator : andToken ∉ operatorTokens op := by cases op <;> decide
    have hcolumn := hoperand (Operand.ofToken?_ofColumn hname)
    simp [clauseTokens, hcolumn, hoperator, hts]
  have hvalue {v : Value} (hv : v.isIntegerOrText = true) : andToken ∉ literalTokens v := by
    rw [literalTokens_of_plain hv, List.mem_singleton]
    exact hoperand (Operand.ofToken?_ofLiteral hv)
  cases p with
  | null column negated => exact hclause h _ List.not_mem_nil
  | compare column comparison value => exact hclause h.1 _ (hvalue h.2)
  | member column negated items =>
    refine hclause h.1 _ ?_
    intro hmem
    rw [literalTokens, eachLiteralTokens_eq_map] at hmem
    rcases List.mem_append.mp hmem with hmem | hmem
    · rcases List.mem_cons.mp hmem with hmem | hmem
      · cases hmem
      · rcases mem_intercalate hmem with hmem | ⟨ts, hts, hmem⟩
        · cases List.mem_singleton.mp hmem
        · obtain ⟨v, hv, rfl⟩ := List.mem_map.mp hts
          exact hvalue (h.2.2 v hv) hmem
    · cases List.mem_singleton.mp hmem
  | constant truth =>
    have hdigit : andToken ≠ .word [if truth then '1' else '0'] := by cases truth <;> decide
    simp [tokens, hdigit, show andToken ≠ .word ['1'] by decide, show andToken ≠ .symbol '=' by decide]
  | like column op operand => cases h
  | anyLike column op operands => cases h

end Predicate

variable (hr : r.dialect = .standard)
include hr

theorem Test.ofText?_chars {p : Predicate} (h : p.IsPlain r) : ofText? (p.chars r) = p.test? := by
  rw [ofText?, Lexer.tokens?_eq_of_reads (p.reads_chars hr h.writesName), Option.bind_some,
    ofTokens?_tokens h]

/-- The tests of a clause are read one by one. -/
theorem conditions?_conjunctionChars {ps : List Predicate} (h : ∀ p ∈ ps, p.IsPlain r) :
    conditions? (Predicate.conjunctionChars r ps) = some (ps.filterMap Predicate.test?) := by
  have htokens : tokens? (Predicate.conjunctionChars r ps) =
      some (List.intercalate [andToken] (ps.map (Predicate.tokens r))) :=
    Lexer.tokens?_eq_of_reads (Lexer.reads_intercalate (readsClosed_keyword "AND".toList rfl nofun)
      (bounds_blank _) nofun fun p hp => p.reads_chars hr (h p hp).writesName)
  rw [conditions?, htokens, Option.bind_some]
  by_cases hnil : ps = []
  · subst hnil
    rfl
  · have hsplit : (List.intercalate [andToken] (ps.map (Predicate.tokens r))).splitOn andToken =
        ps.map (Predicate.tokens r) := by
      refine List.splitOn_intercalate andToken ?_ (by simpa using hnil)
      intro ts hts
      obtain ⟨p, hp, rfl⟩ := List.mem_map.mp hts
      exact (h p hp).andToken_not_mem_tokens
    have hne : List.intercalate [andToken] (ps.map (Predicate.tokens r)) ≠ [] := by
      -- Without tokens the only piece would be empty, and no test is read of it.
      intro hempty
      rw [hempty] at hsplit
      have hmem : [] ∈ ps.map (Predicate.tokens r) := hsplit ▸ List.mem_singleton_self []
      obtain ⟨p, hp, hp'⟩ := List.mem_map.mp hmem
      have hsome := (h p hp).isSome_test?
      rw [← Test.ofTokens?_tokens (h p hp), hp'] at hsome
      cases hsome
    rw [if_neg hne, hsplit]
    exact Outcome.mapM_map_eq_some_filterMap (fun p hp => Test.ofTokens?_tokens (h p hp))
      fun p hp => (h p hp).isSome_test?

end Texts

end RowQuery.Sql
