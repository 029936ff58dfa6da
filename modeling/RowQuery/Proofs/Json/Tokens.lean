import RowQuery.Json.Reader
import RowQuery.Json.Writer
import RowQuery.Proofs.Text.Digits

/-!
# Numbers and strings in JSON

A number is written as it is, so it is read back if its digits are such as a document may have. A string
is written character by character, each of them as one piece, and the pieces are joined again.

Results:
* `readNumber_chars`: a number is read back, unless what follows prolongs it.
* `readString_quoted`: a string is read back, whatever follows.
* `isCanonical_ofInt`: integers are numbers that a document may have.
-/

namespace RowQuery

/-- Whether a document may have a number: its digits are decimal, at least one of them stands in front
of the point, and the first of these is a zero only if it is alone. -/
def Numeral.isCanonical (n : Numeral) : Bool :=
  !n.whole.isEmpty && n.whole.all Char.isDigit && (n.whole.head? != some '0' || n.whole == ['0'])
    && n.fraction.all Char.isDigit

theorem Numeral.isCanonical_iff {n : Numeral} : n.isCanonical = true ↔
    n.whole ≠ [] ∧ (∀ c ∈ n.whole, c.isDigit = true) ∧
      (n.whole.head? = some '0' → n.whole = ['0']) ∧ ∀ c ∈ n.fraction, c.isDigit = true := by
  unfold isCanonical
  simp only [Bool.and_eq_true, Bool.or_eq_true, bne_iff_ne, beq_iff_eq, List.all_eq_true,
    Bool.not_eq_true', List.isEmpty_eq_false_iff, ne_eq, Decidable.imp_iff_not_or, and_assoc]

theorem Numeral.isCanonical_ofInt (i : Int) : (Numeral.ofInt i).isCanonical = true := by
  refine isCanonical_iff.mpr ⟨Text.digits_ne_nil _, fun c hc => Text.isDigit_of_mem_digits hc, ?_,
    nofun⟩
  show (Text.digits i.natAbs).head? = some '0' → Text.digits i.natAbs = ['0']
  rcases Nat.eq_zero_or_pos i.natAbs with hzero | hpos
  · rw [hzero]
    exact fun _ => rfl
  · exact fun hhead => absurd hhead (Text.head_digits hpos)

namespace Json

open Utf8 (Symbols)

/-! ## Numbers -/

/-- No digit follows. -/
def NoDigit (rest : Symbols) : Prop := ∀ c, rest.head? = some (some c) → c.isDigit = false

/-- Nothing follows that could prolong a number. -/
def EndsNumber (rest : Symbols) : Prop :=
  ∀ c, rest.head? = some (some c) → c.isDigit = false ∧ c ≠ '.' ∧ c ≠ 'e' ∧ c ≠ 'E'

theorem EndsNumber.noDigit {rest : Symbols} (h : EndsNumber rest) : NoDigit rest :=
  fun c hc => (h c hc).1

theorem endsNumber_nil : EndsNumber [] := nofun

section Numbers

variable {ds : List Char} {rest : Symbols}

theorem readDigits_append (h : ∀ c ∈ ds, c.isDigit = true) (hr : NoDigit rest) :
    readDigits (ds.map some ++ rest) = (ds, rest) := by
  induction ds with
  | nil =>
    show readDigits rest = _
    cases rest with
    | nil => rfl
    | cons c rest =>
      cases c with
      | none => rfl
      | some c => rw [readDigits, if_neg (Bool.eq_false_iff.mp (hr c rfl))]
  | cons d ds ih =>
    obtain ⟨hd, hds⟩ := List.forall_mem_cons.mp h
    rw [List.map_cons, List.cons_append, readDigits, if_pos hd, ih hds]

theorem readWhole_append (hne : ds ≠ []) (h : ∀ c ∈ ds, c.isDigit = true)
    (hzero : ds.head? = some '0' → ds = ['0']) (hr : NoDigit rest) :
    readWhole (ds.map some ++ rest) = some (ds, rest) := by
  obtain ⟨d, ds, rfl⟩ := List.exists_cons_of_ne_nil hne
  by_cases hd : d = '0'
  · subst hd
    rw [hzero rfl]
    rfl
  · have hother : ∀ rest', (d :: ds).map some ++ rest ≠ some '0' :: rest' :=
      fun rest' hrest => hd (Option.some.inj (List.cons.inj hrest).1)
    rw [readWhole.eq_2 _ hother, readDigits_append h hr]
    rfl

theorem readFraction_append (h : ∀ c ∈ ds, c.isDigit = true) (hr : NoDigit rest)
    (hpoint : rest.head? ≠ some (some '.')) :
    readFraction ((if ds.isEmpty then [] else '.' :: ds).map some ++ rest) = some (ds, rest) := by
  cases ds with
  | nil =>
    have hother : ∀ rest', rest ≠ some '.' :: rest' := by
      rintro rest' rfl
      exact hpoint rfl
    exact readFraction.eq_2 _ hother
  | cons d ds =>
    show (if (readDigits ((d :: ds).map some ++ rest)).1.isEmpty then none else
      some (readDigits ((d :: ds).map some ++ rest))) = _
    rw [readDigits_append h hr]
    rfl

theorem readExponentDigits_append (negative : Bool) (n : Nat) (hr : NoDigit rest) :
    readExponentDigits negative ((Text.digits n).map some ++ rest) =
      some (some (if negative then -(n : Int) else n), rest) := by
  have hne : (Text.digits n).isEmpty = false := by
    simpa using Text.digits_ne_nil n
  unfold readExponentDigits
  rw [readDigits_append (fun c hc => Text.isDigit_of_mem_digits hc) hr]
  simp only [hne, Text.ofDigits_digits]
  rfl

theorem readExponent_append (e : Option Int) (hr : EndsNumber rest) :
    readExponent ((Numeral.exponentChars true e).map some ++ rest) = some (e, rest) := by
  cases e with
  | none =>
    show readExponent rest = _
    cases rest with
    | nil => rfl
    | cons c rest =>
      cases c with
      | none => rfl
      | some c =>
        obtain ⟨_, _, he, hE⟩ := hr c rfl
        simp only [readExponent, he, hE, or_self, if_false]
  | some e =>
    by_cases he : e < 0
    · have hvalue : -(e.natAbs : Int) = e := by omega
      have hdigits := readExponentDigits_append true e.natAbs hr.noDigit
      rw [if_pos rfl, hvalue] at hdigits
      rw [Numeral.exponentChars, if_pos he]
      exact hdigits
    · have hvalue : (e.natAbs : Int) = e := by omega
      have hdigits := readExponentDigits_append false e.natAbs hr.noDigit
      rw [if_neg Bool.false_ne_true, hvalue] at hdigits
      rw [Numeral.exponentChars, if_neg he]
      exact hdigits

/-- What stands behind the digits in front of a point. -/
theorem head?_fraction_exponent (ds : List Char) (e : Option Int) (hr : EndsNumber rest) :
    NoDigit ((if ds.isEmpty then [] else '.' :: ds).map some ++
      ((Numeral.exponentChars true e).map some ++ rest)) := by
  intro c hc
  cases ds with
  | cons d ds =>
    cases hc
    rfl
  | nil =>
    cases e with
    | none => exact (hr c hc).1
    | some e =>
      cases hc
      rfl

theorem readUnsigned_append {n : Numeral} (h : n.isCanonical = true) (hr : EndsNumber rest) :
    readUnsigned n.negative (n.whole.map some ++
      ((if n.fraction.isEmpty then [] else '.' :: n.fraction).map some ++
        ((Numeral.exponentChars true n.exponent).map some ++ rest))) = some (n, rest) := by
  obtain ⟨hne, hwhole, hzero, hfraction⟩ := Numeral.isCanonical_iff.mp h
  have hexponent : ((Numeral.exponentChars true n.exponent).map some ++ rest).head? ≠
      some (some '.') ∧ NoDigit ((Numeral.exponentChars true n.exponent).map some ++ rest) := by
    cases n.exponent with
    | none => exact ⟨fun hpoint => (hr '.' hpoint).2.1 rfl, hr.noDigit⟩
    | some e => exact ⟨fun hpoint => (by cases hpoint), head?_fraction_exponent [] (some e) hr⟩
  unfold readUnsigned
  rw [readWhole_append hne hwhole hzero
    (head?_fraction_exponent n.fraction n.exponent hr)]
  simp only [Option.bind_eq_bind, Option.bind_some]
  rw [readFraction_append hfraction hexponent.2 hexponent.1]
  simp only [Option.bind_some]
  rw [readExponent_append n.exponent hr]
  rfl

/-- A number is read back, unless what follows prolongs it. -/
theorem readNumber_chars {n : Numeral} (h : n.isCanonical = true) (hr : EndsNumber rest) :
    readNumber ((n.chars true).map some ++ rest) = some (n, rest) := by
  have hread := readUnsigned_append h hr
  unfold Numeral.chars
  cases hn : n.negative with
  | true =>
    rw [hn] at hread
    simp only [List.map_append, List.append_assoc]
    exact hread
  | false =>
    rw [hn] at hread
    simp only [List.map_append, List.append_assoc]
    refine (readNumber.eq_2 _ ?_).trans hread
    -- The first digit is no minus sign.
    obtain ⟨hne, hwhole, _⟩ := Numeral.isCanonical_iff.mp h
    obtain ⟨d, ds, hds⟩ := List.exists_cons_of_ne_nil hne
    intro rest' hminus
    rw [hds] at hminus
    cases hminus
    exact absurd (hwhole '-' (by rw [hds]; exact List.mem_cons_self)) (by decide)

end Numbers

/-! ## Strings -/

/-- How a character is written: behind a backslash with a letter, behind one with its number, or as it
is. -/
theorem escape_cases (c : Char) :
    (∃ e, e ≠ 'u' ∧ shortEscape? e = some c ∧ escape c = ['\\', e]) ∨
      (c.toNat < 32 ∧
        escape c = ['\\', 'u', '0', '0', hexDigit (c.toNat / 16), hexDigit (c.toNat % 16)]) ∨
      (c ≠ '"' ∧ c ≠ '\\' ∧ ¬c.toNat < 32 ∧ escape c = [c]) := by
  unfold escape
  repeat' split
  · next h => exact .inl ⟨'"', by decide, by rw [h]; rfl, rfl⟩
  · next h => exact .inl ⟨'\\', by decide, by rw [h]; rfl, rfl⟩
  · next h => exact .inl ⟨'b', by decide, by rw [h]; rfl, rfl⟩
  · next h => exact .inl ⟨'f', by decide, by rw [h]; rfl, rfl⟩
  · next h => exact .inl ⟨'n', by decide, by rw [h]; rfl, rfl⟩
  · next h => exact .inl ⟨'r', by decide, by rw [h]; rfl, rfl⟩
  · next h => exact .inl ⟨'t', by decide, by rw [h]; rfl, rfl⟩
  · next h => exact .inr (.inl ⟨h, rfl⟩)
  · next hquote hslash _ _ _ _ _ h => exact .inr (.inr ⟨hquote, hslash, h, rfl⟩)

/-- The piece that a character is written as. -/
def pieceOf (c : Char) : Piece := if (escape c).length = 6 then .unit c.toNat else .char c

theorem hexValue?_hexDigit : ∀ n < 16, hexValue? (some (hexDigit n)) = some n := by
  decide

theorem hexUnit?_hexDigit {n : Nat} (h : n < 32) :
    hexUnit? (some '0') (some '0') (some (hexDigit (n / 16))) (some (hexDigit (n % 16))) = some n := by
  have hzero : hexValue? (some '0') = some 0 := rfl
  have hn : n / 16 * 16 + n % 16 = n := Nat.div_add_mod' n 16
  unfold hexUnit?
  rw [hzero, hexValue?_hexDigit _ (by omega), hexValue?_hexDigit _ (Nat.mod_lt n (by decide))]
  simp [hn]

section Strings

variable {c : Char} {rest : Symbols}

theorem readPieces_short {e : Char} (he : e ≠ 'u') (h : shortEscape? e = some c) :
    readPieces (some '\\' :: some e :: rest) =
      (readPieces rest).map fun p => (.char c :: p.1, p.2) := by
  rw [readPieces.eq_4 _ _ _ (fun _ _ _ _ _ _ hu => he hu), if_neg (by decide), if_pos rfl, h]
  cases readPieces rest <;> rfl

theorem readPieces_unit {n : Nat} {a b d : Option Char} {c : Option Char}
    (h : hexUnit? a b c d = some n) :
    readPieces (some '\\' :: some 'u' :: a :: b :: c :: d :: rest) =
      (readPieces rest).map fun p => (.unit n :: p.1, p.2) := by
  rw [readPieces.eq_3, if_neg (by decide), if_pos rfl, h]
  cases readPieces rest <;> rfl

theorem readPieces_quote (rest : Symbols) : readPieces (some '"' :: rest) = some ([], rest) := by
  rw [readPieces.eq_def]
  exact if_pos rfl

theorem readPieces_plain (hquote : c ≠ '"') (hslash : c ≠ '\\') (h : ¬c.toNat < 32) :
    readPieces (some c :: rest) = (readPieces rest).map fun p => (.char c :: p.1, p.2) := by
  rw [readPieces.eq_def]
  exact (if_neg hquote).trans ((if_neg hslash).trans (if_neg h))

/-- A character is read as its piece. -/
theorem readPieces_escape (c : Char) (rest : Symbols) :
    readPieces ((escape c).map some ++ rest) =
      (readPieces rest).map fun p => (pieceOf c :: p.1, p.2) := by
  unfold pieceOf
  rcases escape_cases c with ⟨e, he, hshort, hescape⟩ | ⟨hlt, hescape⟩ | ⟨hquote, hslash, hlt, hescape⟩
  · rw [hescape]
    exact readPieces_short he hshort
  · rw [hescape]
    exact readPieces_unit (hexUnit?_hexDigit hlt)
  · rw [hescape]
    exact readPieces_plain hquote hslash hlt

theorem readPieces_escaped (cs : List Char) (rest : Symbols) :
    readPieces ((cs.flatMap escape).map some ++ some '"' :: rest) = some (cs.map pieceOf, rest) := by
  induction cs with
  | nil => exact readPieces_quote rest
  | cons c cs ih =>
    rw [List.flatMap_cons, List.map_append, List.append_assoc, readPieces_escape, ih]
    rfl

theorem joinPieces_pieceOf (c : Char) (ps : List Piece) :
    joinPieces (pieceOf c :: ps) = (joinPieces ps).map (c :: ·) := by
  unfold pieceOf
  split
  · next hlength =>
    -- Only control characters are written as units, which are no halves of surrogate pairs.
    have hlt : c.toNat < 32 := by
      rcases escape_cases c with ⟨e, _, _, hescape⟩ | ⟨hlt, _⟩ | ⟨_, _, _, hescape⟩
      · rw [hescape] at hlength
        cases hlength
      · exact hlt
      · rw [hescape] at hlength
        cases hlength
    have hleading : isLeading c.toNat = false := by
      simp [isLeading]
      omega
    have htrailing : isTrailing c.toNat = false := by
      simp [isTrailing]
      omega
    rw [joinPieces.eq_def]
    simp only [hleading, htrailing, Char.ofNat_toNat, Bool.false_eq_true, if_false]
  · rw [joinPieces]

/-- The pieces of characters are joined to these characters. -/
theorem joinPieces_map (cs : List Char) : joinPieces (cs.map pieceOf) = some cs := by
  induction cs with
  | nil => rfl
  | cons c cs ih => rw [List.map_cons, joinPieces_pieceOf, ih, Option.map_some]

/-- A string is read back, whatever follows. -/
theorem readString_quoted (s : String) (rest : Symbols) :
    readString ((s.toList.flatMap escape ++ ['"']).map some ++ rest) = some (some s, rest) := by
  unfold readString
  rw [List.map_append, List.append_assoc]
  show (readPieces ((s.toList.flatMap escape).map some ++ some '"' :: rest)).map _ = _
  rw [readPieces_escaped, Option.map_some]
  simp only [joinPieces_map, Option.map_some, String.ofList_toList]

end Strings

end Json

end RowQuery
