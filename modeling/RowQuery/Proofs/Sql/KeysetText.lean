import RowQuery.Proofs.Outcome
import RowQuery.Proofs.Sql.Lexer
import RowQuery.Proofs.Text.Digits
import RowQuery.Proofs.Value.Plain
import RowQuery.Sql.Keyset

/-!
# Reading keyset predicates

The text of a keyset predicate is read back token by token: alternatives between `OR`, each of them
comparisons between `AND` in parentheses, each of a column with an integer or a string. Columns stand in
double quotes, or are plain names, which are no keywords.

Results:
* `reads_literal`, `reads_identifier`: what a value and a column are read as.
* `ofText?_chars`: the text of a predicate is read back as the predicate.
-/

namespace RowQuery

namespace Sql

/-! ## Reading tokens -/

/-- The words that have a meaning of their own in statements. -/
def keywords : List String :=
  ["SELECT", "FROM", "WHERE", "AND", "OR", "NOT", "IS", "NULL", "IN", "LIKE", "ESCAPE", "ORDER", "BY",
    "ASC", "DESC", "LIMIT", "OFFSET"]

def isNameChar (c : Char) : Bool := c.isAlphanum || c = '_'

/-- Whether characters are a name without quotes: letters, digits and underscores that start with no
digit and are no keyword in any case. -/
def isPlainName (cs : List Char) : Bool :=
  cs.all isNameChar && cs.head?.any (fun c => !c.isDigit)
    && !keywords.contains (String.ofList (cs.map Char.toUpper))

def natural? (cs : List Char) : Option Nat :=
  if !cs.isEmpty && cs.all Char.isDigit then some (Text.ofDigits cs) else none

def integer? : List Char → Option Int
  | '-' :: cs => (natural? cs).map fun (n : Nat) => -(n : Int)
  | cs => (natural? cs).map fun (n : Nat) => (n : Int)

namespace Token

/-- The name that a token gives. -/
def name? : Token → Option String
  | .name cs => some (String.ofList cs)
  | .word cs => if isPlainName cs then some (String.ofList cs) else none
  | _ => none

/-- The integer or text that a token gives. -/
def literal? : Token → Option Value
  | .word cs => ((integer? cs).bind Word.int64?).map .int
  | .text cs => some (.string (String.ofList cs))
  | _ => none

def relation? : Token → Option Relation
  | .symbol c => [Relation.eq, .lt, .gt].find? fun r => r.symbol == c
  | _ => none

/-- The token of a column. -/
def ofColumn (r : Renderer) (column : String) : Token :=
  if r.quoteIdentifiers then .name column.toList else .word column.toList

/-- The token of an integer or a text. -/
def ofLiteral : Value → Token
  | .string s => .text s.toList
  | v => .word v.display

end Token

def andToken : Token := .word "AND".toList

def orToken : Token := .word "OR".toList

namespace KeyTerm

def ofTokens? : List Token → Option KeyTerm
  | [column, relation, value] => do some ⟨← column.name?, ← relation.relation?, ← value.literal?⟩
  | _ => none

def tokens (r : Renderer) (t : KeyTerm) : List Token :=
  [.ofColumn r t.column, .symbol t.relation.symbol, .ofLiteral t.value]

end KeyTerm

namespace Keyset

/-- The comparisons between `AND`s in parentheses. -/
def branchOfTokens? : List Token → Option (List KeyTerm)
  | .symbol '(' :: rest =>
    if rest.getLast? = some (.symbol ')') then
      (rest.dropLast.splitOn andToken).mapM KeyTerm.ofTokens?
    else none
  | _ => none

/-- The predicate that a text denotes. -/
def ofText? (cs : List Char) : Option Keyset := do
  let ts ← tokens? cs
  let branches ← (ts.splitOn orToken).mapM branchOfTokens?
  some ⟨branches⟩

def branchTokens (r : Renderer) (terms : List KeyTerm) : List Token :=
  .symbol '(' :: List.intercalate [andToken] (terms.map (KeyTerm.tokens r)) ++ [.symbol ')']

def tokens (r : Renderer) (k : Keyset) : List Token :=
  List.intercalate [orToken] (k.branches.map (branchTokens r))

end Keyset

/-- The columns that a renderer writes so that they can be told from the rest of the text. -/
def Renderer.writesName (r : Renderer) (column : String) : Bool :=
  r.quoteIdentifiers || isPlainName column.toList

/-- The integers and texts that a renderer writes as the standard dialect does. -/
def Renderer.writesValue (r : Renderer) (v : Value) : Bool :=
  v.isIntegerOrText && r.dialect.literal v == Dialect.standard.literal v

/-- A term that can be read back. -/
def KeyTerm.isReadable (r : Renderer) (t : KeyTerm) : Bool :=
  r.writesName t.column && r.writesValue t.value

/-! ## Columns and values -/

open Lexer

theorem isWordChar_of_isNameChar {c : Char} (h : isNameChar c = true) : isWordChar c = true := by
  unfold isNameChar at h
  unfold isWordChar
  rw [h]
  rfl

theorem isWordChar_of_isDigit {c : Char} (h : c.isDigit = true) : isWordChar c = true := by
  unfold isWordChar Char.isAlphanum
  rw [h, Bool.or_true]
  rfl

/-- A column is one token, from which its name is read back. -/
theorem reads_identifier {r : Renderer} {column : String} (h : r.writesName column = true) :
    Reads (r.identifier column) [.ofColumn r column] ∧
      (Token.ofColumn r column).name? = some column := by
  unfold Renderer.writesName at h
  unfold Renderer.identifier Token.ofColumn
  cases hq : r.quoteIdentifiers with
  | true => exact ⟨reads_enclose rfl column.toList, congrArg some (String.ofList_toList)⟩
  | false =>
    rw [hq, Bool.false_or] at h
    have hplain := h
    unfold isPlainName at hplain
    simp only [Bool.and_eq_true, List.all_eq_true] at hplain
    obtain ⟨⟨hchars, hhead⟩, _⟩ := hplain
    have hne : column.toList ≠ [] := by
      intro hnil
      rw [hnil] at hhead
      exact absurd hhead (by decide)
    constructor
    · exact reads_word (fun c hc => isWordChar_of_isNameChar (hchars c hc)) hne
    · show (if isPlainName column.toList then some (String.ofList column.toList) else none) = _
      rw [if_pos h, String.ofList_toList]

theorem natural?_digits (n : Nat) : natural? (Text.digits n) = some n := by
  have hall : (Text.digits n).all Char.isDigit = true :=
    List.all_eq_true.mpr fun c hc => Text.isDigit_of_mem_digits hc
  have hne : (Text.digits n).isEmpty = false := by
    simpa using Text.digits_ne_nil n
  unfold natural?
  rw [hall, hne, Text.ofDigits_digits]
  rfl

theorem integer?_intDigits (i : Int) : integer? (Text.intDigits i) = some i := by
  unfold Text.intDigits
  by_cases h : i < 0
  · have hvalue : -(i.natAbs : Int) = i := by omega
    rw [if_pos h, integer?, natural?_digits, Option.map_some, hvalue]
  · have hvalue : (i.natAbs : Int) = i := by omega
    have hminus : ∀ cs, Text.digits i.natAbs ≠ '-' :: cs := by
      intro cs hcs
      have hmem : '-' ∈ Text.digits i.natAbs := by
        rw [hcs]
        exact List.mem_cons_self
      exact absurd (Text.isDigit_of_mem_digits hmem) (by decide)
    rw [if_neg h, integer?.eq_2 _ hminus, natural?_digits, Option.map_some, hvalue]

/-- An integer or a text is one token, from which it is read back. -/
theorem reads_literal {r : Renderer} {v : Value} (h : r.writesValue v = true) :
    Reads (r.dialect.literal v) [.ofLiteral v] ∧ (Token.ofLiteral v).literal? = some v := by
  unfold Renderer.writesValue at h
  rw [Bool.and_eq_true, beq_iff_eq] at h
  obtain ⟨hplain, hliteral⟩ := h
  rw [hliteral]
  cases v with
  | int i =>
    constructor
    · show Reads (Text.intDigits i.toInt) [.word (Text.intDigits i.toInt)]
      refine reads_word ?_ ?_
      · intro c hc
        rcases Text.eq_minus_or_isDigit_of_mem_intDigits hc with rfl | hc
        · rfl
        · exact isWordChar_of_isDigit hc
      · intro hnil
        have hread := integer?_intDigits i.toInt
        rw [hnil] at hread
        cases hread
    · show ((integer? (Text.intDigits i.toInt)).bind Word.int64?).map Value.int = _
      rw [integer?_intDigits, Option.bind_some, Word.int64?_toInt]
      rfl
  | string s =>
    refine ⟨reads_enclose rfl s.toList, ?_⟩
    show some (Value.string (String.ofList s.toList)) = _
    rw [String.ofList_toList]
  | null | bool _ | float _ | dateTime _ | list _ => cases hplain

/-! ## Predicates -/

theorem mem_intercalate {α : Type} {separator : List α} {items : List (List α)} {x : α}
    (h : x ∈ List.intercalate separator items) : x ∈ separator ∨ ∃ item ∈ items, x ∈ item := by
  induction items with
  | nil => rw [List.intercalate_nil] at h; cases h
  | cons item items ih =>
    cases items with
    | nil =>
      rw [List.intercalate_singleton] at h
      exact .inr ⟨item, List.mem_singleton_self item, h⟩
    | cons next items =>
      rw [List.intercalate_cons_cons, List.append_assoc, List.mem_append, List.mem_append] at h
      rcases h with h | h | h
      · exact .inr ⟨item, List.mem_cons_self, h⟩
      · exact .inl h
      · rcases ih h with h | ⟨i, hi, h⟩
        · exact .inl h
        · exact .inr ⟨i, List.mem_cons_of_mem item hi, h⟩

/-- A word between blanks. -/
theorem readsClosed_keyword (word : List Char) (h : word.all isWordChar = true)
    (hne : word ≠ []) : ReadsClosed (' ' :: (word ++ [' '])) [.word word] :=
  readsClosed_blank.append_closed
    ((reads_word (List.all_eq_true.mp h) hne).append_closed readsClosed_blank (fun _ hc => by cases hc; decide) nofun)

theorem bounds_blank (rest : List Char) : Bounds (' ' :: rest) := by
  intro c hc
  cases hc
  decide

section Readable

variable {r : Renderer} {t : KeyTerm}

/-- A term is a column, a relation and a value. -/
theorem reads_termChars (hname : r.writesName t.column = true) {ts : List Token}
    (hvalue : Reads (r.dialect.literal t.value) ts) :
    Reads (Keyset.termChars r t) (.ofColumn r t.column :: .symbol t.relation.symbol :: ts) := by
  have hsymbol : ReadsClosed [' ', t.relation.symbol, ' '] [.symbol t.relation.symbol] := by
    cases t.relation with
    | eq | lt | gt => exact readsClosed_of_run rfl
  have hterm := ((reads_identifier hname).1.append_closed hsymbol (bounds_blank _) nofun).append hvalue
  rw [List.append_assoc] at hterm
  exact hterm

/-- Branches stand in parentheses, with `OR` between them, and terms with `AND` between them. -/
theorem reads_branches {termTokens : KeyTerm → List Token} {k : Keyset}
    (h : ∀ terms ∈ k.branches, ∀ t ∈ terms, Reads (Keyset.termChars r t) (termTokens t)) :
    Reads (k.chars r) (List.intercalate [orToken] (k.branches.map fun terms =>
      .symbol '(' :: List.intercalate [andToken] (terms.map termTokens) ++ [.symbol ')'])) := by
  refine reads_intercalate (readsClosed_keyword "OR".toList rfl nofun) (bounds_blank _) nofun ?_
  intro terms hterms
  exact (readsClosed_parentheses (reads_intercalate (readsClosed_keyword "AND".toList rfl nofun)
    (bounds_blank _) nofun (h terms hterms))).reads

theorem reads_term (h : t.isReadable r = true) :
    Reads (Keyset.termChars r t) (t.tokens r) := by
  unfold KeyTerm.isReadable at h
  rw [Bool.and_eq_true] at h
  exact reads_termChars h.1 (reads_literal h.2).1

theorem ofTokens?_tokens (h : t.isReadable r = true) : KeyTerm.ofTokens? (t.tokens r) = some t := by
  unfold KeyTerm.isReadable at h
  rw [Bool.and_eq_true] at h
  have hrelation : (Token.symbol t.relation.symbol).relation? = some t.relation := by
    cases t.relation <;> rfl
  simp only [KeyTerm.tokens, KeyTerm.ofTokens?, (reads_identifier h.1).2, hrelation,
    (reads_literal h.2).2]
  rfl

/-- No token of a term is a keyword. -/
theorem not_mem_tokens {keyword : Token} (hname : keyword.name? = none)
    (hsymbol : ∀ c, keyword ≠ .symbol c) (hliteral : keyword.literal? = none)
    (h : t.isReadable r = true) : keyword ∉ t.tokens r := by
  unfold KeyTerm.isReadable at h
  rw [Bool.and_eq_true] at h
  unfold KeyTerm.tokens
  rw [List.mem_cons, List.mem_cons, List.mem_singleton]
  rintro (rfl | rfl | rfl)
  · rw [(reads_identifier h.1).2] at hname
    cases hname
  · exact hsymbol _ rfl
  · rw [(reads_literal h.2).2] at hliteral
    cases hliteral

theorem andToken_not_mem_tokens (h : t.isReadable r = true) : andToken ∉ t.tokens r :=
  not_mem_tokens (by decide) (fun _ h => Token.noConfusion h) (by decide) h

variable {terms : List KeyTerm}

theorem branchOfTokens?_enclosed (ts : List Token) :
    Keyset.branchOfTokens? (.symbol '(' :: (ts ++ [.symbol ')'])) =
      (ts.splitOn andToken).mapM KeyTerm.ofTokens? := by
  simp only [Keyset.branchOfTokens?]
  rw [List.getLast?_concat, if_pos rfl, List.dropLast_concat]

theorem branchOfTokens?_branchTokens (hne : terms ≠ []) (h : ∀ t ∈ terms, t.isReadable r = true) :
    Keyset.branchOfTokens? (Keyset.branchTokens r terms) = some terms := by
  rw [Keyset.branchTokens, List.cons_append, branchOfTokens?_enclosed, List.splitOn_intercalate]
  · exact Outcome.mapM_map_eq_some fun t ht => ofTokens?_tokens (h t ht)
  · intro tokens htokens
    obtain ⟨t, ht, rfl⟩ := List.mem_map.mp htokens
    exact andToken_not_mem_tokens (h t ht)
  · simpa using hne

theorem orToken_not_mem_branchTokens (h : ∀ t ∈ terms, t.isReadable r = true) :
    orToken ∉ Keyset.branchTokens r terms := by
  unfold Keyset.branchTokens
  rw [List.mem_append, List.mem_cons, List.mem_singleton]
  rintro ((hopen | hterms) | hclose)
  · cases hopen
  · rcases mem_intercalate hterms with hand | ⟨tokens, htokens, hor⟩
    · rw [List.mem_singleton] at hand
      exact absurd hand (by decide)
    · obtain ⟨t, ht, rfl⟩ := List.mem_map.mp htokens
      exact not_mem_tokens (by decide) (fun _ h => Token.noConfusion h) (by decide) (h t ht) hor
  · cases hclose

/-- The text of a predicate is read back as the predicate. -/
theorem ofText?_chars {k : Keyset} (hne : k.branches ≠ [])
    (h : ∀ terms ∈ k.branches, terms ≠ [] ∧ ∀ t ∈ terms, t.isReadable r = true) :
    Keyset.ofText? (k.chars r) = some k := by
  have htokens : tokens? (k.chars r) = some (k.tokens r) :=
    tokens?_eq_of_reads (reads_branches fun terms hterms t ht => reads_term ((h terms hterms).2 t ht))
  have hsplit : (k.tokens r).splitOn orToken = k.branches.map (Keyset.branchTokens r) := by
    refine List.splitOn_intercalate orToken ?_ (by simpa using hne)
    intro tokens htokens
    obtain ⟨terms, hterms, rfl⟩ := List.mem_map.mp htokens
    exact orToken_not_mem_branchTokens (h terms hterms).2
  unfold Keyset.ofText?
  rw [htokens, Option.bind_eq_bind, Option.bind_some, hsplit, Outcome.mapM_map_eq_some fun terms
    hterms => branchOfTokens?_branchTokens (h terms hterms).1 (h terms hterms).2]
  rfl

end Readable

end Sql

end RowQuery
