import RowQuery.Proofs.Double.PlainText
import RowQuery.Proofs.Sql.KeysetText
import RowQuery.Sql.Statement

/-!
# The tokens that statements are written as

Literals, predicates, keyset predicates and statements of the standard dialect are read as tokens that
their parts determine. A value in marks is one token, whatever characters it has, so the tokens around
it do not depend on it. Columns stand in double quotes or are plain names.

Results:
* `reads_literalChars`: what a value of any kind is read as.
* `Predicate.reads_chars`, `reads_written`: what a predicate is read as.
* `Select.reads_chars`: what a statement is read as.
-/

namespace RowQuery

/-- The text of a timestamp has no quotation mark. -/
theorem Timestamp.mark_not_mem_chars (f : Fraction) (t : Timestamp) : '\'' ∉ t.chars f := by
  have hdigits {width n : Nat} : '\'' ∉ Text.padded width n :=
    fun h => absurd (Text.isDigit_of_mem_padded h) (by decide)
  have hyear (year : Int) : '\'' ∉ yearChars year := by
    unfold yearChars
    split
    · exact hdigits
    · split <;> simp [hdigits]
  have hfraction (n : Nat) : '\'' ∉ f.chars n := by
    cases f with
    | millis => simp [Fraction.chars, hdigits]
    | exact =>
      unfold Fraction.chars
      repeat' split
      all_goals simp [hdigits]
  simp [chars, hdigits, hyear, hfraction]

namespace Sql

open Lexer

/-! ## Literals -/

theorem Quoted.encode_eq_self {mark : Char} {cs : List Char} (h : mark ∉ cs) : encode mark cs = cs := by
  induction cs with
  | nil => rfl
  | cons c cs ih =>
    obtain ⟨hc, hcs⟩ := List.ne_and_not_mem_of_not_mem_cons h
    rw [encode, if_neg (Ne.symm hc), ih hcs]

def keyword (name : String) : Token := .word name.toList

mutual

/-- The tokens of a value: a word, a string, or the tokens of its elements between parentheses. -/
def literalTokens : Value → List Token
  | .string s => [.text s.toList]
  | .dateTime t => [.text (t.chars .millis)]
  | .list items => .symbol '(' :: List.intercalate [.symbol ','] (eachLiteralTokens items) ++ [.symbol ')']
  | v => [.word (Dialect.standard.literal v)]

def eachLiteralTokens : List Value → List (List Token)
  | [] => []
  | v :: rest => literalTokens v :: eachLiteralTokens rest

end

theorem eachLiteralTokens_eq_map (items : List Value) :
    eachLiteralTokens items = items.map literalTokens := by
  induction items with
  | nil => rfl
  | cons v rest ih => rw [eachLiteralTokens, ih, List.map_cons]

theorem literalItems_eq_intercalate (escape : List Char → List Char) (items : List Value) :
    literalItems escape items = List.intercalate ", ".toList (items.map (literalChars escape)) := by
  induction items with
  | nil => rfl
  | cons v rest ih =>
    cases rest with
    | nil => rw [literalItems, List.map_singleton, List.intercalate_singleton]
    | cons w rest =>
      rw [literalItems, ih, List.map_cons, List.map_cons, List.map_cons, List.intercalate_cons_cons,
        List.append_assoc]
      rfl

/-- Whether characters are those of a number. -/
def isNumeric (cs : List Char) : Bool := cs.all fun c => c = '-' || c = '.' || c.isDigit

theorem isNumeric_of_forall {cs : List Char} (h : ∀ c ∈ cs, c = '-' ∨ c = '.' ∨ c.isDigit = true) :
    isNumeric cs = true := by
  simpa [isNumeric, or_assoc] using h

theorem isNumeric_digits (n : Nat) : isNumeric (Text.digits n) = true :=
  isNumeric_of_forall fun _ hc => .inr (.inr (Text.isDigit_of_mem_digits hc))

theorem isNumeric_intDigits (i : Int) : isNumeric (Text.intDigits i) = true :=
  isNumeric_of_forall fun _ hc => (Text.eq_minus_or_isDigit_of_mem_intDigits hc).imp_right .inr

theorem isNumeric_plainChars {x : Double} (h : x.isFinite = true) : isNumeric x.plainChars = true :=
  isNumeric_of_forall fun _ => Double.mem_plainChars h

theorem reads_number {cs : List Char} (h : isNumeric cs = true) (hne : cs ≠ []) :
    Reads cs [.word cs] := by
  refine reads_word (fun c hc => ?_) hne
  have hc := List.all_eq_true.mp h c hc
  simp only [Bool.or_eq_true, decide_eq_true_eq] at hc
  rcases hc with (rfl | rfl) | hdigit
  · rfl
  · rfl
  · exact isWordChar_of_isDigit hdigit

theorem reads_null : Reads "NULL".toList [.word "NULL".toList] := reads_of_tokens? rfl

mutual

/-- A value of any kind is read as its tokens. -/
theorem reads_literalChars (v : Value) :
    Reads (literalChars (Quoted.encode '\'') v) (literalTokens v) := by
  cases v with
  | null => exact reads_null
  | bool b =>
    cases b with
    | true => exact reads_of_tokens? rfl
    | false => exact reads_of_tokens? rfl
  | int i =>
    exact reads_number (isNumeric_intDigits i.toInt) (Text.intDigits_ne_nil i.toInt)
  | float x =>
    show Reads (if x.isFinite then x.plainChars else "NULL".toList)
      [.word (if x.isFinite then x.plainChars else "NULL".toList)]
    split
    · next hfinite =>
      exact reads_number (isNumeric_plainChars hfinite) (Double.plainChars_ne_nil hfinite)
    · exact reads_null
  | string s => exact reads_enclose rfl s.toList
  | dateTime t =>
    have h : Reads (Quoted.enclose '\'' (Quoted.encode '\'' (t.chars .millis)))
        [.text (t.chars .millis)] := reads_enclose rfl (t.chars .millis)
    rw [Quoted.encode_eq_self (t.mark_not_mem_chars .millis)] at h
    exact h
  | list items =>
    refine (readsClosed_parentheses ?_).reads
    rw [literalItems_eq_intercalate, eachLiteralTokens_eq_map]
    exact reads_intercalate (show ReadsClosed ", ".toList [.symbol ','] from readsClosed_of_run rfl)
      (fun c hc => by cases hc; decide) nofun (reads_eachLiteral items)

theorem reads_eachLiteral (items : List Value) :
    ∀ v ∈ items, Reads (literalChars (Quoted.encode '\'') v) (literalTokens v) := by
  cases items with
  | nil => exact fun v hv => nomatch hv
  | cons w rest =>
    intro v hv
    rcases List.mem_cons.mp hv with hv | hv
    · rw [hv]
      exact reads_literalChars w
    · exact reads_eachLiteral rest v hv

end

/-! ## Predicates -/

/-- The tokens of an operator. -/
def operatorTokens : Operator → List Token
  | .equals => [.symbol '=']
  | .notEquals => [.symbol '!', .symbol '=']
  | .lessThan => [.symbol '<']
  | .lessThanOrEquals => [.symbol '<', .symbol '=']
  | .greaterThan => [.symbol '>']
  | .greaterThanOrEquals => [.symbol '>', .symbol '=']
  | .isNull => [keyword "IS", keyword "NULL"]
  | .isNotNull => [keyword "IS", keyword "NOT", keyword "NULL"]
  | .whereIn => [keyword "IN"]
  | .whereNotIn => [keyword "NOT", keyword "IN"]
  | .contains | .startsWith | .endsWith | .arrayContains | .arrayContainsAny => [keyword "LIKE"]

theorem reads_operator (op : Operator) :
    Reads (' ' :: (Dialect.standardOperatorText op).toList) (operatorTokens op) := by
  cases op with
  | equals | notEquals | lessThan | lessThanOrEquals | greaterThan | greaterThanOrEquals =>
    exact (readsClosed_of_run rfl).reads
  | isNull | isNotNull | whereIn | whereNotIn | contains | startsWith | endsWith | arrayContains
  | arrayContainsAny => exact reads_of_tokens? rfl

namespace Predicate

/-- The tokens of a column and of what is said of it. -/
def clauseTokens (r : Renderer) (column : String) (op : Operator) (rest : List Token) : List Token :=
  .ofColumn r column :: operatorTokens op ++ rest

/-- The tokens of a test of a column against a pattern. -/
def likeTokens (r : Renderer) (column : String) (op : Operator) (operand : Value) : List Token :=
  clauseTokens r column op
    [.text ((Like.pattern? op operand.display).getD []), keyword "ESCAPE", .text ['\\']]

/-- The tokens of a predicate. -/
def tokens (r : Renderer) : Predicate → List Token
  | .null column negated => clauseTokens r column (if negated then .isNotNull else .isNull) []
  | .compare column comparison value =>
    clauseTokens r column comparison.operator (literalTokens value)
  | .member column negated vs =>
    clauseTokens r column (if negated then .whereNotIn else .whereIn) (literalTokens (.list vs))
  | .like column op operand => likeTokens r column op operand
  | .anyLike column op operands =>
    .symbol '(' :: List.intercalate [orToken] (operands.map (likeTokens r column op)) ++ [.symbol ')']
  | .constant truth => [.word ['1'], .symbol '=', .word [if truth then '1' else '0']]

/-- The columns that a predicate is about. -/
def columns : Predicate → List String
  | .null column _ | .compare column _ _ | .member column _ _ | .like column _ _
  | .anyLike column _ _ => [column]
  | .constant _ => []

end Predicate

section Standard

variable {r : Renderer} (hr : r.dialect = .standard)
include hr

theorem reads_value (v : Value) : Reads (r.dialect.literal v) (literalTokens v) := by
  rw [hr]
  exact reads_literalChars v

namespace Predicate

variable {column : String} (hname : r.writesName column = true)
include hname

theorem reads_clause_nil (op : Operator) :
    Reads (clause r column op []) (clauseTokens r column op []) := by
  unfold clause clauseTokens
  rw [hr, List.append_nil, List.append_nil]
  exact (reads_identifier hname).1.append (reads_operator op) (bounds_blank _) nofun

theorem reads_clause_blank (op : Operator) {cs : List Char} {ts : List Token} (h : Reads cs ts) :
    Reads (clause r column op (' ' :: cs)) (clauseTokens r column op ts) := by
  have hrest : Reads (' ' :: cs) ts := readsClosed_blank.append h
  have hclause := (reads_clause_nil hr hname op).append hrest (bounds_blank _) nofun
  unfold clause clauseTokens at hclause ⊢
  rw [List.append_nil, List.append_nil] at hclause
  exact hclause

theorem reads_likeChars (op : Operator) (operand : Value) :
    Reads (likeChars r column op operand) (likeTokens r column op operand) := by
  have hliteral : (Like.literal? r op operand).getD "\'\'".toList =
      Quoted.enclose '\'' (Quoted.encode '\'' ((Like.pattern? op operand.display).getD [])) := by
    unfold Like.literal?
    rw [hr]
    cases Like.pattern? op operand.display with
    | none => rfl
    | some pattern => rfl
  have hescape : Reads " ESCAPE \'\\\'".toList [keyword "ESCAPE", .text ['\\']] :=
    reads_of_tokens? rfl
  refine reads_clause_blank hr hname op ?_
  rw [hliteral]
  exact (reads_enclose rfl _).append hescape (bounds_blank _) nofun

end Predicate

/-- A predicate is read as its tokens. -/
theorem Predicate.reads_chars {p : Predicate} (h : ∀ column ∈ p.columns, r.writesName column = true) :
    Reads (p.chars r) (p.tokens r) := by
  cases p with
  | null column negated => exact reads_clause_nil hr (h column List.mem_cons_self) _
  | compare column comparison value =>
    exact reads_clause_blank hr (h column List.mem_cons_self) _ (reads_value hr value)
  | member column negated vs =>
    exact reads_clause_blank hr (h column List.mem_cons_self) _ (reads_value hr (.list vs))
  | like column op operand => exact reads_likeChars hr (h column List.mem_cons_self) op operand
  | anyLike column op operands =>
    exact (readsClosed_parentheses (reads_intercalate (readsClosed_keyword "OR".toList rfl nofun)
      (bounds_blank _) nofun fun operand _ =>
        reads_likeChars hr (h column List.mem_cons_self) op operand)).reads
  | constant truth =>
    cases truth with
    | true => exact reads_of_tokens? rfl
    | false => exact reads_of_tokens? rfl

end Standard

/-! ## Keyset predicates -/

namespace Keyset

/-- The tokens of a comparison with a recorded value of any kind. -/
def writtenTerm (r : Renderer) (t : KeyTerm) : List Token :=
  .ofColumn r t.column :: .symbol t.relation.symbol :: literalTokens t.value

/-- The tokens of a branch. -/
def writtenBranch (r : Renderer) (terms : List KeyTerm) : List Token :=
  .symbol '(' :: List.intercalate [andToken] (terms.map (writtenTerm r)) ++ [.symbol ')']

/-- The tokens of a keyset predicate. -/
def written (r : Renderer) (k : Keyset) : List Token :=
  List.intercalate [orToken] (k.branches.map (writtenBranch r))

/-- The columns that a keyset predicate is about. -/
def columns (k : Keyset) : List String := k.branches.flatMap fun terms => terms.map KeyTerm.column

end Keyset

/-! ## Statements -/

namespace Select

/-- The tokens of the conditions of a statement. -/
def conditionTokens (r : Renderer) (s : Select) : List (List Token) :=
  s.filters.map (Predicate.tokens r)
    ++ s.bounds.map fun k => .symbol '(' :: k.written r ++ [.symbol ')']

def whereTokens : List (List Token) → List Token
  | [] => []
  | conditions => keyword "WHERE" :: List.intercalate [andToken] conditions

def keyTokens (r : Renderer) (k : OrderKey) : List Token :=
  [.ofColumn r k.field, keyword (if k.descending then "DESC" else "ASC")]

def orderTokens (r : Renderer) : List OrderKey → List Token
  | [] => []
  | order => keyword "ORDER" :: keyword "BY" :: List.intercalate [.symbol ','] (order.map (keyTokens r))

def countTokens (word : String) : Option Nat → List Token
  | none => []
  | some n => [keyword word, .word (Text.digits n)]

/-- The tokens in front of the conditions. -/
def headTokens (r : Renderer) (s : Select) : List Token :=
  [keyword "SELECT", .symbol '*', keyword "FROM", .ofColumn r s.table]

/-- The tokens behind the conditions. -/
def tailTokens (r : Renderer) (s : Select) : List Token :=
  orderTokens r s.order ++ countTokens "LIMIT" s.limit ++ countTokens "OFFSET" s.offset

/-- The tokens of a statement. -/
def tokens (r : Renderer) (s : Select) : List Token :=
  s.headTokens r ++ whereTokens (s.conditionTokens r) ++ s.tailTokens r

/-- The names that a statement writes. -/
def names (s : Select) : List String :=
  s.table :: s.filters.flatMap Predicate.columns ++ s.bounds.flatMap Keyset.columns
    ++ s.order.map OrderKey.field

end Select

section Statements

variable {r : Renderer}

theorem reads_written (hr : r.dialect = .standard) {k : Keyset}
    (h : ∀ column ∈ k.columns, r.writesName column = true) : Reads (k.chars r) (k.written r) := by
  refine reads_branches fun terms hterms t ht => ?_
  have hname := h t.column (List.mem_flatMap.mpr ⟨terms, hterms, List.mem_map_of_mem ht⟩)
  exact reads_termChars hname (reads_value hr t.value)

/-- A clause with a blank in front is read behind another text. -/
theorem reads_append_spaced {cs ds : List Char} {ts us : List Token} (h : Reads cs ts)
    (h' : Reads ds us) : Reads (cs ++ Select.spaced ds) (ts ++ us) := by
  cases ds with
  | nil =>
    have hnone : some [] = some us := tokens?_eq_of_reads h'
    cases hnone
    rw [Select.spaced, List.isEmpty_nil, if_pos rfl, List.append_nil, List.append_nil]
    exact h
  | cons d ds => exact h.append (readsClosed_blank.append h') (bounds_blank _) nofun

namespace Select

theorem reads_nothing : Reads [] [] := fun _ _ => Option.map_id_apply.symm

theorem reads_whereChars {α : Type} {text : α → List Char} {tokens : α → List Token}
    {conditions : List α} (h : ∀ c ∈ conditions, Reads (text c) (tokens c)) :
    Reads (whereChars (conditions.map text)) (whereTokens (conditions.map tokens)) := by
  have hwhere : ReadsClosed "WHERE ".toList [keyword "WHERE"] := readsClosed_of_run rfl
  cases conditions with
  | nil => exact reads_nothing
  | cons c conditions =>
    exact hwhere.append (reads_intercalate (readsClosed_keyword "AND".toList rfl nofun)
      (bounds_blank _) nofun h)

theorem reads_orderChars {order : List OrderKey}
    (h : ∀ k ∈ order, r.writesName k.field = true) :
    Reads (orderChars r order) (orderTokens r order) := by
  have hkey (k : OrderKey) (hk : k ∈ order) : Reads (keyChars r k) (keyTokens r k) := by
    unfold keyChars keyTokens
    refine (reads_identifier (h k hk)).1.append ?_ ?_ ?_
    · cases k.descending with
      | true => exact reads_of_tokens? rfl
      | false => exact reads_of_tokens? rfl
    · cases k.descending with
      | true => exact bounds_blank _
      | false => exact bounds_blank _
    · cases k.descending with
      | true => exact nofun
      | false => exact nofun
  have hby : ReadsClosed "ORDER BY ".toList [keyword "ORDER", keyword "BY"] := readsClosed_of_run rfl
  cases order with
  | nil => exact reads_nothing
  | cons k order =>
    exact hby.append (reads_intercalate (show ReadsClosed ", ".toList [.symbol ','] from
      readsClosed_of_run rfl) (fun c hc => by cases hc; decide) nofun hkey)

theorem reads_countChars {word : String} (h : tokens? word.toList = some [keyword word])
    (n : Option Nat) : Reads (countChars word n) (countTokens word n) := by
  cases n with
  | none => exact reads_nothing
  | some n =>
    have hdigits : Reads (Text.digits n) [.word (Text.digits n)] :=
      reads_number (isNumeric_digits n) (Text.digits_ne_nil n)
    exact (reads_of_tokens? h).append (readsClosed_blank.append hdigits) (bounds_blank _) nofun

theorem columns_subset_names {s : Select} {p : Predicate} (h : p ∈ s.filters) : p.columns ⊆ s.names := by
  intro column hcolumn
  have hmem := List.mem_flatMap.mpr ⟨p, h, hcolumn⟩
  simp [names, hmem]

theorem bound_columns_subset_names {s : Select} {k : Keyset} (h : k ∈ s.bounds) : k.columns ⊆ s.names := by
  intro column hcolumn
  have hmem := List.mem_flatMap.mpr ⟨k, h, hcolumn⟩
  simp [names, hmem]

theorem field_mem_names {s : Select} {k : OrderKey} (h : k ∈ s.order) : k.field ∈ s.names := by
  have hmem : k.field ∈ s.order.map OrderKey.field := List.mem_map_of_mem h
  simp [names, hmem]

/-- The conditions of a statement are read one by one. -/
theorem reads_conditions (hr : r.dialect = .standard) {s : Select}
    (h : ∀ name ∈ s.names, r.writesName name = true) :
    Reads (whereChars (s.conditions r)) (whereTokens (s.conditionTokens r)) := by
  have hfilter (p : Predicate) (hp : p ∈ s.filters) : Reads (p.chars r) (p.tokens r) :=
    p.reads_chars hr fun column hcolumn => h column (columns_subset_names hp hcolumn)
  have hbound (k : Keyset) (hk : k ∈ s.bounds) :
      Reads ('(' :: k.chars r ++ [')']) (.symbol '(' :: k.written r ++ [.symbol ')']) :=
    (readsClosed_parentheses (reads_written hr fun column hcolumn =>
      h column (bound_columns_subset_names hk hcolumn))).reads
  -- Text and tokens of each condition side by side.
  let pairs := s.filters.map (fun p => (p.chars r, p.tokens r))
    ++ s.bounds.map fun k => ('(' :: k.chars r ++ [')'], .symbol '(' :: k.written r ++ [.symbol ')'])
  have hpairs : ∀ c ∈ pairs, Reads c.1 c.2 := by
    intro c hc
    rcases List.mem_append.mp hc with hc | hc
    · obtain ⟨p, hp, rfl⟩ := List.mem_map.mp hc
      exact hfilter p hp
    · obtain ⟨k, hk, rfl⟩ := List.mem_map.mp hc
      exact hbound k hk
  have hread : Reads (whereChars (pairs.map Prod.fst)) (whereTokens (pairs.map Prod.snd)) :=
    reads_whereChars hpairs
  simpa only [pairs, conditions, conditionTokens, List.map_append, List.map_map, Function.comp_def]
    using hread

/-- A statement is read as its tokens. -/
theorem reads_chars (hr : r.dialect = .standard) {s : Select}
    (h : ∀ name ∈ s.names, r.writesName name = true) : Reads (s.chars r) (s.tokens r) := by
  have hhead : ReadsClosed "SELECT * FROM ".toList [keyword "SELECT", .symbol '*', keyword "FROM"] :=
    readsClosed_of_run rfl
  have htable : Reads ("SELECT * FROM ".toList ++ r.identifier s.table) (s.headTokens r) :=
    hhead.append (reads_identifier (h s.table List.mem_cons_self)).1
  have horder := reads_orderChars fun k hk => h k.field (field_mem_names hk)
  have hlimit : Reads (countChars "LIMIT" s.limit) (countTokens "LIMIT" s.limit) :=
    reads_countChars rfl s.limit
  have hoffset : Reads (countChars "OFFSET" s.offset) (countTokens "OFFSET" s.offset) :=
    reads_countChars rfl s.offset
  have hordered := reads_append_spaced (reads_append_spaced htable (reads_conditions hr h)) horder
  have hsliced := reads_append_spaced (reads_append_spaced hordered hlimit) hoffset
  rw [tokens, tailTokens, ← List.append_assoc, ← List.append_assoc]
  exact hsliced

end Select

end Statements

end Sql

end RowQuery
