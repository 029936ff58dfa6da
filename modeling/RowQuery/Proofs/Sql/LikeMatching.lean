import Mathlib.Data.List.Infix
import RowQuery.Filter.Basic
import RowQuery.Proofs.Sql.Lexer
import RowQuery.Sql.Like

/-!
# Which texts fit a pattern

A pattern is a sequence of items: any characters, any one character, or a character that stands for
itself, as every character behind a backslash does. A text fits a pattern if it can be cut into pieces
that fit the items one by one, with regard to case.

Results:
* `items?_escape_append`: an escaped text is read as the characters of the text.
* `fit_chars_append`: such characters fit themselves alone.
* `pattern_fits_iff_accepts`: the pattern of a test of texts is fitted by the texts that pass the test.
-/

namespace RowQuery.Sql.Like

/-! ## Patterns and their items -/

/-- What a part of a pattern stands for. -/
inductive Item where
  /-- Any characters, or none. -/
  | anyText
  /-- Any one character. -/
  | anyChar
  | char (c : Char)
deriving DecidableEq

/-- What a character stands for that no backslash precedes. -/
def Item.ofChar (c : Char) : Item :=
  if c = '%' then .anyText else if c = '_' then .anyChar else .char c

/-- The items of a pattern; a backslash needs a character behind it. -/
def items? : List Char → Option (List Item)
  | [] => some []
  | '\\' :: c :: rest => (items? rest).map (.char c :: ·)
  | c :: rest => if c = '\\' then none else (items? rest).map (Item.ofChar c :: ·)

/-- Whether a text can be cut into pieces that fit some items one by one. -/
def fit : List Item → List Char → Bool
  | [], cs => cs.isEmpty
  | .anyText :: items, cs => cs.tails.any (fit items)
  | .anyChar :: items, cs => !cs.isEmpty && fit items cs.tail
  | .char c :: items, cs => cs.head? == some c && fit items cs.tail

/-- Whether a text fits a pattern. -/
def fits (pattern cs : List Char) : Bool := (items? pattern).any (fit · cs)

/-! ## Escaped texts -/

theorem items?_cons {c : Char} (h : c ≠ '\\') (rest : List Char) :
    items? (c :: rest) = (items? rest).map (Item.ofChar c :: ·) := by
  rw [items?.eq_3, if_neg h]
  rintro _ _ rfl _
  exact h rfl

theorem escape_cons (c : Char) (cs : List Char) :
    escape (c :: cs) = (if c = '\\' ∨ c = '%' ∨ c = '_' then ['\\', c] else [c]) ++ escape cs :=
  List.flatMap_cons

/-- An escaped text is read as the characters of the text, whatever follows. -/
theorem items?_escape_append (cs rest : List Char) :
    items? (escape cs ++ rest) = (items? rest).map (cs.map .char ++ ·) := by
  induction cs with
  | nil => exact Option.map_id_apply.symm
  | cons c cs ih =>
    have hitem : items? (escape (c :: cs) ++ rest) =
        (items? (escape cs ++ rest)).map (.char c :: ·) := by
      rw [escape_cons, List.append_assoc]
      by_cases hspecial : c = '\\' ∨ c = '%' ∨ c = '_'
      · rw [if_pos hspecial]
        rfl
      · rw [if_neg hspecial, List.singleton_append]
        simp only [not_or] at hspecial
        obtain ⟨hbackslash, hpercent, hunderscore⟩ := hspecial
        rw [items?_cons hbackslash, Item.ofChar, if_neg hpercent, if_neg hunderscore]
    rw [hitem, ih, Option.map_map]
    rfl

theorem items?_escape (cs : List Char) : items? (escape cs) = some (cs.map .char) := by
  have h := items?_escape_append cs []
  rw [List.append_nil] at h
  rw [h, items?, Option.map_some, List.append_nil]

/-! ## Fitting -/

/-- Characters fit themselves, and what follows them fits the rest of the text. -/
theorem fit_chars_append (cs : List Char) (items : List Item) (text : List Char) :
    fit (cs.map .char ++ items) text = true ↔ ∃ rest, text = cs ++ rest ∧ fit items rest = true := by
  induction cs generalizing text with
  | nil => exact ⟨fun h => ⟨text, rfl, h⟩, by rintro ⟨_, rfl, h⟩; exact h⟩
  | cons c cs ih =>
    rw [List.map_cons, List.cons_append, fit, Bool.and_eq_true, beq_iff_eq, ih]
    constructor
    · rintro ⟨hhead, rest, htail, hrest⟩
      obtain ⟨text, rfl⟩ := List.head?_eq_some_iff.mp hhead
      exact ⟨rest, congrArg (c :: ·) htail, hrest⟩
    · rintro ⟨rest, rfl, hrest⟩
      exact ⟨rfl, rest, rfl, hrest⟩

theorem fit_chars (cs text : List Char) : fit (cs.map .char) text = true ↔ text = cs := by
  have h := fit_chars_append cs [] text
  rw [List.append_nil] at h
  rw [h]
  constructor
  · rintro ⟨rest, rfl, hrest⟩
    rw [List.isEmpty_iff.mp hrest, List.append_nil]
  · rintro rfl
    exact ⟨[], (List.append_nil text).symm, rfl⟩

theorem fit_anyText_cons (items : List Item) (text : List Char) :
    fit (.anyText :: items) text = true ↔ ∃ rest, rest <:+ text ∧ fit items rest = true := by
  rw [fit, List.any_eq_true]
  simp only [List.mem_tails]

theorem fit_anyText (text : List Char) : fit [.anyText] text = true :=
  (fit_anyText_cons [] text).mpr ⟨[], List.nil_suffix, rfl⟩

/-- A pattern of characters, with any text behind them, is fitted by what starts with them. -/
theorem fit_chars_anyText (cs text : List Char) :
    fit (cs.map .char ++ [.anyText]) text = true ↔ cs <+: text := by
  rw [fit_chars_append]
  constructor
  · rintro ⟨rest, rfl, _⟩
    exact List.prefix_append cs rest
  · rintro ⟨rest, rfl⟩
    exact ⟨rest, rfl, fit_anyText rest⟩

/-! ## Tests of texts -/

theorem fits_startsWith (cs text : List Char) : fits (escape cs ++ ['%']) text = true ↔ cs <+: text := by
  have hitems : items? (escape cs ++ ['%']) = some (cs.map .char ++ [.anyText]) :=
    items?_escape_append cs ['%']
  rw [fits, hitems]
  exact fit_chars_anyText cs text

theorem fits_endsWith (cs text : List Char) : fits ('%' :: escape cs) text = true ↔ cs <:+ text := by
  rw [fits, items?_cons (by decide), items?_escape]
  refine (fit_anyText_cons (cs.map .char) text).trans ?_
  simp only [fit_chars, exists_eq_right]

theorem fits_contains (cs text : List Char) :
    fits ('%' :: escape cs ++ ['%']) text = true ↔ cs <:+: text := by
  have hitems : items? (escape cs ++ ['%']) = some (cs.map .char ++ [.anyText]) :=
    items?_escape_append cs ['%']
  rw [fits, List.cons_append, items?_cons (by decide), hitems]
  refine (fit_anyText_cons (cs.map .char ++ [.anyText]) text).trans ?_
  simp only [fit_chars_anyText]
  constructor
  · rintro ⟨rest, hsuffix, hprefix⟩
    exact hprefix.isInfix.trans hsuffix.isInfix
  · rintro ⟨front, back, rfl⟩
    exact ⟨cs ++ back, ⟨front, (List.append_assoc front cs back).symm⟩, List.prefix_append cs back⟩

/-- The operators that test whether a text stands in another one. -/
def testsText : Operator → Bool
  | .contains | .startsWith | .endsWith => true
  | _ => false

/-- The pattern of a test of texts is written as one string, and the texts that fit it are those that
pass the test. -/
theorem pattern_fits_iff_accepts {ρ : Type} [Record ρ] {r : Renderer} (hr : r.dialect = .standard)
    {op : Operator} (hop : testsText op = true) (field operand : String) (row : ρ) {text : String}
    (hrow : Record.value row field = .string text) :
    ∃ literal pattern, literal? r op (.string operand) = some literal ∧
      tokens? literal = some [.text pattern] ∧
      (fits pattern text.toList = true ↔
        (⟨field, op, .string operand⟩ : Filter).accepts row = true) := by
  have hread (pattern : List Char) :
      tokens? (Quoted.enclose '\'' (r.dialect.escape pattern)) = some [.text pattern] := by
    rw [hr]
    exact Lexer.tokens?_eq_of_reads (Lexer.reads_enclose rfl pattern)
  unfold Filter.accepts
  rw [hrow]
  cases op with
  | contains =>
    exact ⟨_, _, rfl, hread _, (fits_contains operand.toList text.toList).trans Text.contains_iff.symm⟩
  | startsWith =>
    exact ⟨_, _, rfl, hread _,
      (fits_startsWith operand.toList text.toList).trans Text.hasPrefix_iff.symm⟩
  | endsWith =>
    exact ⟨_, _, rfl, hread _, (fits_endsWith operand.toList text.toList).trans Text.hasSuffix_iff.symm⟩
  | _ => cases hop

theorem pattern_fits_discount :
    ∃ literal pattern,
      literal? ⟨.standard, false⟩ .contains (.string "50%_\\'s") = some literal ∧
      tokens? literal = some [.text pattern] ∧
      fits pattern "now 50%_\\'s off".toList = true := by
  obtain ⟨literal, pattern, hliteral, htokens, hfits⟩ :=
    pattern_fits_iff_accepts (r := ⟨.standard, false⟩) rfl
      (show testsText .contains = true from rfl) "title" "50%_\\'s"
      (⟨[("title", .string "now 50%_\\'s off")]⟩ : Row) rfl
  exact ⟨literal, pattern, hliteral, htokens, hfits.mpr (by decide +kernel)⟩

end RowQuery.Sql.Like
