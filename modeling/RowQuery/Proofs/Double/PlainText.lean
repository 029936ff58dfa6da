import RowQuery.Proofs.Double.Numerals

/-!
# The plain text of a number

Without an exponent a finite number is written with digits, at least one of them in front of the point,
a minus sign at most in front of them and a point at most between them.

Results:
* `isPlain_numeral`: a layout without limits writes every number without an exponent.
* `mem_plainChars`: which characters the plain text of a finite number has.
-/

namespace RowQuery

/-- A number written in digits without an exponent. -/
structure Numeral.IsPlain (n : Numeral) : Prop where
  whole_ne_nil : n.whole ≠ []
  whole_digits : ∀ c ∈ n.whole, c.isDigit = true
  fraction_digits : ∀ c ∈ n.fraction, c.isDigit = true
  exponent_eq_none : n.exponent = none

namespace Numeral.IsPlain

variable {n : Numeral} {plus : Bool}

theorem chars_eq (h : n.IsPlain) :
    n.chars plus = (if n.negative then ['-'] else []) ++ n.whole
      ++ (if n.fraction.isEmpty then [] else '.' :: n.fraction) := by
  rw [Numeral.chars, h.exponent_eq_none]
  exact List.append_nil _

theorem chars_ne_nil (h : n.IsPlain) : n.chars plus ≠ [] := by
  intro hnil
  rw [h.chars_eq] at hnil
  exact h.whole_ne_nil (List.append_eq_nil_iff.mp (List.append_eq_nil_iff.mp hnil).1).2

theorem mem_chars (h : n.IsPlain) {c : Char} (hc : c ∈ n.chars plus) :
    c = '-' ∨ c = '.' ∨ c.isDigit = true := by
  rw [h.chars_eq, List.mem_append, List.mem_append] at hc
  rcases hc with (hsign | hwhole) | hfraction
  · split at hsign
    · exact .inl (List.mem_singleton.mp hsign)
    · cases hsign
  · exact .inr (.inr (h.whole_digits c hwhole))
  · split at hfraction
    · cases hfraction
    · rcases List.mem_cons.mp hfraction with hpoint | hfraction
      · exact .inr (.inl hpoint)
      · exact .inr (.inr (h.fraction_digits c hfraction))

end Numeral.IsPlain

namespace Double

namespace Layout

variable {l : Layout}

theorem exponent_decimalNumeral (hl : l.positional = none) (negative : Bool) (ds : List Char)
    (exponent : Int) : (l.decimalNumeral negative ds exponent).exponent = none := by
  have hpositional (position : Int) : (!l.isPositional position) = false := by
    rw [isPositional, hl]
    rfl
  simp only [decimalNumeral, hpositional, Bool.false_eq_true, if_false]
  repeat' split
  all_goals rfl

theorem isPlain_decimalNumeral (hl : l.positional = none) (negative : Bool) {ds : List Char}
    (hne : ds ≠ []) (hds : ∀ c ∈ ds, c.isDigit = true) (exponent : Int) :
    (l.decimalNumeral negative ds exponent).IsPlain := by
  obtain ⟨hwhole, hwholeDigits, hfraction, _⟩ := l.decimalNumeral_digits negative hne hds exponent
  exact ⟨hwhole, hwholeDigits, hfraction, exponent_decimalNumeral hl negative ds exponent⟩

theorem isPlain_numeral (hl : l.positional = none) (x : Double) : (l.numeral x).IsPlain := by
  unfold numeral
  split
  · refine ⟨List.cons_ne_nil _ _, fun c hc => ?_, fun c => isDigit_of_mem_wholeFraction, rfl⟩
    rw [List.mem_singleton.mp hc]
    rfl
  · exact isPlain_decimalNumeral hl _ (Text.digits_ne_nil _) (fun c => Text.isDigit_of_mem_digits) _

end Layout

theorem isNaN_eq_false_of_isFinite {x : Double} (h : x.isFinite = true) : x.isNaN = false := by
  unfold isFinite at h
  unfold isNaN
  rw [decide_eq_true_eq] at h
  exact decide_eq_false (Nat.lt_asymm h)

section Finite

variable {x : Double} (h : x.isFinite = true)
include h

theorem plainChars_eq_chars : x.plainChars = (plainLayout.numeral x).chars false := by
  unfold plainChars Layout.chars
  rw [isNaN_eq_false_of_isFinite h, h]
  rfl

theorem plainChars_ne_nil : x.plainChars ≠ [] := by
  rw [plainChars_eq_chars h]
  exact (Layout.isPlain_numeral rfl x).chars_ne_nil

theorem mem_plainChars {c : Char} (hc : c ∈ x.plainChars) :
    c = '-' ∨ c = '.' ∨ c.isDigit = true := by
  rw [plainChars_eq_chars h] at hc
  exact (Layout.isPlain_numeral rfl x).mem_chars hc

end Finite

end Double

end RowQuery
