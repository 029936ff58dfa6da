import RowQuery.Text.Blank

/-!
# Texts without blanks

Digits are no blanks. Blanks around a text that has none are trimmed, and nothing else is.

Results: `trim_of_blank`, what is left of a text without blanks in the midst of blanks.
-/

namespace RowQuery.Text

theorem isBlank_of_isDigit {c : Char} (h : c.isDigit = true) : isBlank c = false := by
  have hrange : 48 ≤ c.toNat ∧ c.toNat ≤ 57 := by
    simpa [Char.isDigit, UInt32.le_iff_toNat_le] using h
  simp only [isBlank, Bool.or_eq_false_iff, Bool.and_eq_false_iff, decide_eq_false_iff_not,
    beq_eq_false_iff_ne]
  omega

/-- Blanks around a text without blanks are trimmed. -/
theorem trim_of_blank {before cs after : List Char} (hbefore : ∀ c ∈ before, isBlank c = true)
    (h : ∀ c ∈ cs, isBlank c = false) (hafter : ∀ c ∈ after, isBlank c = true) :
    trim (before ++ cs ++ after) = cs := by
  unfold trim
  rw [List.append_assoc, trimStart_append_of_blank hbefore]
  cases cs with
  | nil =>
    have hstart : trimStart (after ++ []) = trimStart [] := trimStart_append_of_blank hafter
    rw [List.append_nil] at hstart
    rw [List.nil_append, hstart]
    rfl
  | cons c cs =>
    obtain ⟨init, last, hlast⟩ : ∃ init last, c :: cs = init ++ [last] :=
      ⟨_, _, (List.dropLast_concat_getLast (List.cons_ne_nil c cs)).symm⟩
    have hstart : trimStart (c :: cs ++ after) = c :: cs ++ after :=
      trimStart_eq_self (h c List.mem_cons_self)
    rw [hstart, trimEnd_append_of_blank hafter, hlast]
    exact trimEnd_eq_self (h last (by rw [hlast]; simp))

end RowQuery.Text
