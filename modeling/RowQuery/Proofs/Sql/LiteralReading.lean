import Mathlib.Data.List.TakeDrop
import RowQuery.Proofs.Sql.Anchors

/-!
# Literals are read back

A reader of literals takes a literal off the front of a text and leaves the rest: `NULL`, a signed decimal
number, a text in single quotes in which the mark is written twice, or literals between parentheses with
commas between them. Of what follows it only matters that it does not prolong the literal. In the same way
a name is read in double quotes.

Results:
* `Quoted.read?_encode`: a text of any characters ends at the first mark that stands alone.
* `readNumeral?_chars`: a number without an exponent is read back.
* `readLiteral?_literalChars`: a literal of any depth is read back.
* `literals_read_back`: literals of the standard dialect and quoted names are read back.
-/

namespace RowQuery.Sql

/-! ## What a literal says -/

/-- What is written as a literal; a number is what it is written with. -/
inductive Literal where
  | null
  | number (cs : List Char)
  | text (cs : List Char)
  | list (items : List Literal)

namespace Literal

mutual

/-- What a value is written as: truth values as `1` and `0`, numbers that are not finite as `NULL`, and
timestamps as their texts. -/
def ofValue : Value → Literal
  | .null => .null
  | .bool b => .number (if b then ['1'] else ['0'])
  | .int i => .number (Text.intDigits i.toInt)
  | .float x => if x.isFinite then .number x.plainChars else .null
  | .string s => .text s.toList
  | .dateTime t => .text (t.chars .millis)
  | .list items => .list (ofValues items)

def ofValues : List Value → List Literal
  | [] => []
  | v :: rest => ofValue v :: ofValues rest

end

/-- What follows does not prolong a literal. -/
def Ends (rest : List Char) : Prop :=
  ∀ c ∈ rest.head?, c ≠ '\'' ∧ c ≠ '.' ∧ c.isDigit = false

end Literal

/-! ## The reader -/

/-- The text up to the first mark that stands alone, and what follows. -/
def Quoted.read? (mark : Char) : List Char → Option (List Char × List Char)
  | [] => none
  | [c] => if c = mark then some ([], []) else none
  | c :: d :: rest =>
    if c = mark then
      if d = mark then (read? mark rest).map fun (cs, rest) => (mark :: cs, rest)
      else some ([], d :: rest)
    else (read? mark (d :: rest)).map fun (cs, rest) => (c :: cs, rest)

/-- A point and the digits behind it, if there are any, and what follows. -/
def readFraction : List Char → List Char × List Char
  | '.' :: rest =>
    let (ds, behind) := Text.splitDigits rest
    if ds.isEmpty then ([], '.' :: rest) else ('.' :: ds, behind)
  | rest => ([], rest)

/-- Digits with a point between them at most, and what follows. -/
def readUnsigned? (cs : List Char) : Option (List Char × List Char) :=
  let (whole, rest) := Text.splitDigits cs
  if whole.isEmpty then none
  else
    let (fraction, rest) := readFraction rest
    some (whole ++ fraction, rest)

/-- A decimal number, with a minus sign in front of it at most, and what follows. -/
def readNumeral? : List Char → Option (List Char × List Char)
  | '-' :: rest => (readUnsigned? rest).map fun (ds, rest) => ('-' :: ds, rest)
  | rest => readUnsigned? rest

def skipSpaces (cs : List Char) : List Char := cs.dropWhile (· == ' ')

mutual

/-- A literal and what follows; every literal and every element of a list takes a step. -/
def readLiteral? : Nat → List Char → Option (Literal × List Char)
  | 0, _ => none
  | steps + 1, input =>
    match input with
    | 'N' :: 'U' :: 'L' :: 'L' :: rest => some (.null, rest)
    | '\'' :: rest => (Quoted.read? '\'' rest).map fun (cs, rest) => (.text cs, rest)
    | '(' :: rest =>
      match skipSpaces rest with
      | ')' :: rest => some (.list [], rest)
      | rest => (readItems? steps rest).map fun (items, rest) => (.list items, rest)
    | rest => (readNumeral? rest).map fun (cs, rest) => (.number cs, rest)

/-- The elements of a list up to its closing parenthesis, and what follows. -/
def readItems? : Nat → List Char → Option (List Literal × List Char)
  | 0, _ => none
  | steps + 1, input => do
    let (item, rest) ← readLiteral? steps input
    match skipSpaces rest with
    | ')' :: rest => some ([item], rest)
    | ',' :: rest => do
      let (items, rest) ← readItems? steps (skipSpaces rest)
      some (item :: items, rest)
    | _ => none

end

/-- The literal in front of a text, and what follows. -/
def Literal.read? (cs : List Char) : Option (Literal × List Char) := readLiteral? (2 * cs.length) cs

/-- The quoted name in front of a text, and what follows. -/
def readName? : List Char → Option (String × List Char)
  | '"' :: rest => (Quoted.read? '"' rest).map fun (cs, rest) => (String.ofList cs, rest)
  | _ => none

/-! ## Texts between marks -/

/-- A text of any characters is read back, unless a mark follows it. -/
theorem Quoted.read?_encode {mark : Char} (cs : List Char) {rest : List Char}
    (hr : rest.head? ≠ some mark) : read? mark (encode mark cs ++ mark :: rest) = some (cs, rest) := by
  induction cs with
  | nil =>
    cases rest with
    | nil => exact if_pos rfl
    | cons d rest =>
      have hd : d ≠ mark := fun h => hr (congrArg some h)
      show read? mark (mark :: d :: rest) = _
      rw [read?, if_pos rfl, if_neg hd]
  | cons c cs ih =>
    unfold encode
    split
    · next hc =>
      show read? mark (mark :: mark :: (encode mark cs ++ mark :: rest)) = _
      rw [read?, if_pos rfl, if_pos rfl, ih, hc]
      rfl
    · next hc =>
      obtain ⟨d, ds, hds⟩ : ∃ d ds, encode mark cs ++ mark :: rest = d :: ds :=
        List.exists_cons_of_ne_nil (by simp)
      show read? mark (c :: (encode mark cs ++ mark :: rest)) = _
      rw [hds, read?, if_neg hc, ← hds, ih]
      rfl

/-! ## Numbers -/

namespace Literal.Ends

variable {rest : List Char}

theorem noDigit (h : Ends rest) : Timestamp.NoDigit rest := fun c hc => (h c hc).2.2

theorem no_point (h : Ends rest) : rest.head? ≠ some '.' := fun hc => (h '.' hc).2.1 rfl

theorem no_mark (h : Ends rest) : rest.head? ≠ some '\'' := fun hc => (h '\'' hc).1 rfl

end Literal.Ends

theorem splitDigits_append {ds rest : List Char} (h : ∀ c ∈ ds, c.isDigit = true)
    (hr : Timestamp.NoDigit rest) : Text.splitDigits (ds ++ rest) = (ds, rest) := by
  have htake : rest.takeWhile Char.isDigit = [] := by
    cases rest with
    | nil => rfl
    | cons c rest => exact List.takeWhile_cons_of_neg (by simp [hr c rfl])
  have hdrop : rest.dropWhile Char.isDigit = rest := by
    cases rest with
    | nil => rfl
    | cons c rest => exact List.dropWhile_cons_of_neg (by simp [hr c rfl])
  unfold Text.splitDigits
  rw [List.span_eq_takeWhile_dropWhile, List.takeWhile_append_of_pos h,
    List.dropWhile_append_of_pos h, htake, hdrop, List.append_nil]

theorem readFraction_append {ds rest : List Char} (h : ∀ c ∈ ds, c.isDigit = true)
    (hr : Literal.Ends rest) :
    readFraction ((if ds.isEmpty then [] else '.' :: ds) ++ rest) =
      (if ds.isEmpty then [] else '.' :: ds, rest) := by
  cases ds with
  | nil =>
    show readFraction rest = ([], rest)
    unfold readFraction
    split
    · exact absurd rfl hr.no_point
    · rfl
  | cons d ds =>
    show readFraction ('.' :: (d :: ds ++ rest)) = ('.' :: d :: ds, rest)
    rw [readFraction, splitDigits_append h hr.noDigit]
    rfl

section Numerals

variable {n : Numeral} (hn : n.IsPlain) {rest : List Char} (hr : Literal.Ends rest)
include hn hr

theorem readUnsigned?_append :
    readUnsigned? (n.whole ++ ((if n.fraction.isEmpty then [] else '.' :: n.fraction) ++ rest)) =
      some (n.whole ++ (if n.fraction.isEmpty then [] else '.' :: n.fraction), rest) := by
  have hpoint : Timestamp.NoDigit ((if n.fraction.isEmpty then [] else '.' :: n.fraction) ++ rest) := by
    cases n.fraction with
    | nil => exact hr.noDigit
    | cons d ds =>
      intro c hc
      cases hc
      decide
  have hne : n.whole.isEmpty = false := by simpa using hn.whole_ne_nil
  unfold readUnsigned?
  simp only [splitDigits_append hn.whole_digits hpoint, hne, readFraction_append hn.fraction_digits hr]
  rfl

/-- A number without an exponent is read back. -/
theorem readNumeral?_chars : readNumeral? (n.chars false ++ rest) = some (n.chars false, rest) := by
  have hread := readUnsigned?_append hn hr
  rw [← List.append_assoc] at hread
  rw [hn.chars_eq]
  cases n.negative with
  | true =>
    show (readUnsigned? (n.whole ++ _ ++ rest)).map _ = _
    rw [hread]
    rfl
  | false =>
    show readNumeral? (n.whole ++ _ ++ rest) = some (n.whole ++ _, rest)
    rw [← hread]
    obtain ⟨d, ds, hds⟩ := List.exists_cons_of_ne_nil hn.whole_ne_nil
    have hd : d ≠ '-' := by
      rintro rfl
      exact absurd (hn.whole_digits '-' (hds ▸ List.mem_cons_self)) (by decide)
    rw [hds]
    exact readNumeral?.eq_2 _ fun _ heq => hd (List.cons.inj heq).1

end Numerals

/-- Whether characters are those of a number without an exponent. -/
def IsNumeral (cs : List Char) : Prop := ∃ n : Numeral, n.IsPlain ∧ cs = n.chars false

theorem isNumeral_intDigits (i : Int) : IsNumeral (Text.intDigits i) := by
  refine ⟨.ofInt i, ⟨Text.digits_ne_nil _, fun _ => Text.isDigit_of_mem_digits, nofun, rfl⟩, ?_⟩
  unfold Text.intDigits Numeral.chars Numeral.ofInt
  by_cases hi : i < 0 <;> simp [hi, Numeral.exponentChars]

theorem isNumeral_plainChars {x : Double} (h : x.isFinite = true) : IsNumeral x.plainChars :=
  ⟨_, Double.Layout.isPlain_numeral rfl x, Double.plainChars_eq_chars h⟩

theorem isNumeral_bool (b : Bool) : IsNumeral (if b then ['1'] else ['0']) := by
  cases b with
  | true => exact isNumeral_intDigits 1
  | false => exact isNumeral_intDigits 0

theorem IsNumeral.exists_cons {cs : List Char} (h : IsNumeral cs) :
    ∃ c rest, cs = c :: rest ∧ (c = '-' ∨ c.isDigit = true) := by
  obtain ⟨n, hn, rfl⟩ := h
  rw [hn.chars_eq]
  obtain ⟨d, ds, hds⟩ := List.exists_cons_of_ne_nil hn.whole_ne_nil
  cases n.negative with
  | true => exact ⟨'-', _, rfl, .inl rfl⟩
  | false =>
    rw [hds]
    exact ⟨d, _, rfl, .inr (hn.whole_digits d (hds ▸ List.mem_cons_self))⟩

/-! ## The first character -/

/-- Whether a literal may start with a character. -/
def startsLiteral (c : Char) : Bool := c.isDigit || ['N', '\'', '(', '-'].contains c

theorem startsLiteral_of_numeral {c : Char} (h : c = '-' ∨ c.isDigit = true) :
    startsLiteral c = true := by
  rcases h with rfl | h
  · decide
  · unfold startsLiteral
    rw [h]
    rfl

theorem exists_literalChars_cons (v : Value) :
    ∃ c cs, literalChars (Quoted.encode '\'') v = c :: cs ∧ startsLiteral c = true := by
  have hnumeral {cs : List Char} (h : IsNumeral cs) : ∃ c ds, cs = c :: ds ∧ startsLiteral c = true := by
    obtain ⟨c, ds, hcs, hc⟩ := h.exists_cons
    exact ⟨c, ds, hcs, startsLiteral_of_numeral hc⟩
  cases v with
  | null => exact ⟨'N', _, rfl, by decide⟩
  | bool b => exact hnumeral (isNumeral_bool b)
  | int i => exact hnumeral (isNumeral_intDigits _)
  | float x =>
    unfold literalChars
    split
    · next hfinite => exact hnumeral (isNumeral_plainChars hfinite)
    · exact ⟨'N', _, rfl, by decide⟩
  | string s => exact ⟨'\'', _, rfl, by decide⟩
  | dateTime t => exact ⟨'\'', _, rfl, by decide⟩
  | list items => exact ⟨'(', _, rfl, by decide⟩

theorem exists_literalItems_cons {vs : List Value} (hne : vs ≠ []) :
    ∃ c cs, literalItems (Quoted.encode '\'') vs = c :: cs ∧ startsLiteral c = true := by
  obtain ⟨v, vs, rfl⟩ := List.exists_cons_of_ne_nil hne
  obtain ⟨c, cs, hcs, hc⟩ := exists_literalChars_cons v
  cases vs with
  | nil => exact ⟨c, cs, hcs, hc⟩
  | cons w vs =>
    refine ⟨c, cs ++ ',' :: ' ' :: literalItems (Quoted.encode '\'') (w :: vs), ?_, hc⟩
    rw [literalItems, hcs]
    rfl

theorem skipSpaces_of_starts {c : Char} (h : startsLiteral c = true) (rest : List Char) :
    skipSpaces (c :: rest) = c :: rest := by
  refine List.dropWhile_cons_of_neg ?_
  rw [beq_iff_eq]
  rintro rfl
  exact absurd h (by decide)

/-! ## Literals -/

theorem readLiteral?_numeral {cs rest : List Char} (h : IsNumeral cs) (hr : Literal.Ends rest)
    (steps : Nat) : readLiteral? (steps + 1) (cs ++ rest) = some (.number cs, rest) := by
  obtain ⟨c, ds, hcs, hc⟩ := h.exists_cons
  have hread : readNumeral? (cs ++ rest) = some (cs, rest) := by
    obtain ⟨n, hn, rfl⟩ := h
    exact readNumeral?_chars hn hr
  rw [hcs] at hread ⊢
  rw [List.cons_append, readLiteral?]
  · rw [← List.cons_append, hread]
    rfl
  all_goals
    intro _ heq
    rw [(List.cons.inj heq).1] at hc
    exact absurd hc (by decide)

theorem readLiteral?_enclose (cs : List Char) {rest : List Char} (hr : Literal.Ends rest) (steps : Nat) :
    readLiteral? (steps + 1) (Quoted.enclose '\'' (Quoted.encode '\'' cs) ++ rest) =
      some (.text cs, rest) := by
  rw [Quoted.enclose_append]
  show (Quoted.read? '\'' (Quoted.encode '\'' cs ++ '\'' :: rest)).map _ = _
  rw [Quoted.read?_encode cs hr.no_mark]
  rfl

theorem readLiteral?_list {c : Char} (hc : startsLiteral c = true) (steps : Nat)
    (rest : List Char) : readLiteral? (steps + 1) ('(' :: c :: rest) =
      (readItems? steps (c :: rest)).map fun (items, rest) => (.list items, rest) := by
  rw [readLiteral?]
  simp only [skipSpaces_of_starts hc]
  split
  · next heq =>
    cases heq
    exact absurd hc (by decide)
  · rfl

theorem ends_cons {c : Char} (h : c = ',' ∨ c = ')') (rest : List Char) : Literal.Ends (c :: rest) := by
  intro d hd
  cases hd
  rcases h with rfl | rfl <;> decide

mutual

/-- A literal is read back from the front of a text. -/
theorem readLiteral?_literalChars (v : Value) {rest : List Char} (hr : Literal.Ends rest)
    (steps : Nat) (hs : 2 * (literalChars (Quoted.encode '\'') v).length ≤ steps) :
    readLiteral? steps (literalChars (Quoted.encode '\'') v ++ rest) =
      some (Literal.ofValue v, rest) := by
  have hpos : 0 < (literalChars (Quoted.encode '\'') v).length := by
    obtain ⟨c, cs, hcs, _⟩ := exists_literalChars_cons v
    rw [hcs]
    exact Nat.succ_pos _
  obtain ⟨steps, rfl⟩ : ∃ n, steps = n + 1 := ⟨steps - 1, by omega⟩
  cases v with
  | null => rfl
  | bool b => exact readLiteral?_numeral (isNumeral_bool b) hr steps
  | int i => exact readLiteral?_numeral (isNumeral_intDigits _) hr steps
  | float x =>
    unfold literalChars Literal.ofValue
    split
    · next hfinite => exact readLiteral?_numeral (isNumeral_plainChars hfinite) hr steps
    · rfl
  | string s => exact readLiteral?_enclose s.toList hr steps
  | dateTime t =>
    have hread := readLiteral?_enclose (t.chars .millis) hr steps
    rw [Quoted.encode_eq_self (t.mark_not_mem_chars .millis)] at hread
    exact hread
  | list items =>
    by_cases hne : items = []
    · subst hne
      rfl
    · have hlength : (literalChars (Quoted.encode '\'') (.list items)).length =
          (literalItems (Quoted.encode '\'') items).length + 2 := by
        simp [literalChars]
      have hread := readItems?_literalItems items hne rest steps (by omega)
      have hchars : literalChars (Quoted.encode '\'') (.list items) ++ rest =
          '(' :: (literalItems (Quoted.encode '\'') items ++ ')' :: rest) := by
        simp [literalChars]
      obtain ⟨c, cs, hcs, hc⟩ := exists_literalItems_cons hne
      rw [hcs, List.cons_append] at hread hchars
      rw [hchars, readLiteral?_list hc, hread]
      rfl

/-- The elements of a list are read back. -/
theorem readItems?_literalItems (vs : List Value) (hne : vs ≠ []) (rest : List Char) (steps : Nat)
    (hs : 2 * (literalItems (Quoted.encode '\'') vs).length + 1 ≤ steps) :
    readItems? steps (literalItems (Quoted.encode '\'') vs ++ ')' :: rest) =
      some (Literal.ofValues vs, rest) := by
  obtain ⟨steps, rfl⟩ : ∃ n, steps = n + 1 := ⟨steps - 1, by omega⟩
  cases vs with
  | nil => exact absurd rfl hne
  | cons v vs =>
    cases vs with
    | nil =>
      have hread := readLiteral?_literalChars v (ends_cons (.inr rfl) rest) steps
        (Nat.le_of_succ_le_succ hs)
      rw [readItems?, literalItems, hread]
      rfl
    | cons w vs =>
      have hlength : (literalItems (Quoted.encode '\'') (v :: w :: vs)).length =
          (literalChars (Quoted.encode '\'') v).length
            + ((literalItems (Quoted.encode '\'') (w :: vs)).length + 2) := by
        simp [literalItems]
      have hchars : literalItems (Quoted.encode '\'') (v :: w :: vs) ++ ')' :: rest =
          literalChars (Quoted.encode '\'') v ++
            ',' :: ' ' :: (literalItems (Quoted.encode '\'') (w :: vs) ++ ')' :: rest) := by
        simp [literalItems]
      have hhead := readLiteral?_literalChars v (ends_cons (.inl rfl)
        (' ' :: (literalItems (Quoted.encode '\'') (w :: vs) ++ ')' :: rest))) steps (by omega)
      have hread := readItems?_literalItems (w :: vs) (List.cons_ne_nil w vs) rest steps
        (by omega)
      have hskip : skipSpaces (' ' :: (literalItems (Quoted.encode '\'') (w :: vs) ++ ')' :: rest)) =
          literalItems (Quoted.encode '\'') (w :: vs) ++ ')' :: rest := by
        obtain ⟨c, cs, hcs, hc⟩ := exists_literalItems_cons (List.cons_ne_nil w vs)
        rw [hcs]
        exact skipSpaces_of_starts hc _
      rw [hchars, readItems?, hhead]
      show (readItems? steps (skipSpaces (' ' :: _)) >>= _) = _
      rw [hskip, hread]
      rfl

end

/-- A literal of the standard dialect and a quoted name are read back from the front of a text, unless what
follows prolongs them. -/
theorem literals_read_back :
    (∀ (v : Value) (rest : List Char), Literal.Ends rest →
      Literal.read? (Dialect.standard.literal v ++ rest) = some (Literal.ofValue v, rest)) ∧
    (∀ r : Renderer, r.quoteIdentifiers = true → ∀ (name : String) (rest : List Char),
      rest.head? ≠ some '"' → readName? (r.identifier name ++ rest) = some (name, rest)) := by
  constructor
  · intro v rest hr
    refine readLiteral?_literalChars v hr _ ?_
    rw [List.length_append]
    exact Nat.mul_le_mul_left 2 (Nat.le_add_right _ _)
  · intro r hquote name rest hr
    unfold Renderer.identifier
    rw [if_pos hquote, Quoted.enclose_append]
    show (Quoted.read? '"' (Quoted.encode '"' name.toList ++ '"' :: rest)).map _ = _
    rw [Quoted.read?_encode name.toList hr]
    show some (String.ofList name.toList, rest) = _
    rw [String.ofList_toList]

/-- A list of a text made of marks, an empty text in a list of its own, a number and a truth value. -/
def markedValues : Value := .list [.string "', '", .list [.string ""], .int (-7), .bool true]

theorem literals_read_back_marked :
    Literal.Ends " LIMIT 1".toList ∧
    Literal.read? (Dialect.standard.literal markedValues ++ " LIMIT 1".toList) =
      some (.list [.text "', '".toList, .list [.text []], .number "-7".toList, .number ['1']],
        " LIMIT 1".toList) ∧
    readName? ((Renderer.mk .standard true).identifier "\"\"" ++ ['=']) = some ("\"\"", ['=']) := by
  have hends : Literal.Ends " LIMIT 1".toList := by
    intro c hc
    cases hc
    decide
  obtain ⟨hliterals, hnames⟩ := literals_read_back
  exact ⟨hends, hliterals markedValues _ hends, hnames _ rfl _ _ (by decide)⟩

end RowQuery.Sql
