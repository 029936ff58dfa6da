import RowQuery.Proofs.Comparison
import RowQuery.Proofs.Value.SortOrder

/-!
# Integers and texts

Among integers and texts the sort order is transitive, and between values of one kind it is the order
of these values.

Results:
* `transitiveOn_integersAndTexts`: the sort order is transitive on integers and texts.
* `compare?_eq_sortCompare`: values of one kind are compared as they are sorted.
-/

namespace RowQuery.Value

/-- Whether a value is an integer or a text. -/
def isIntegerOrText : Value → Bool
  | .int _ | .string _ => true
  | _ => false

theorem transitiveOn_integersAndTexts {values : List Value}
    (h : ∀ v ∈ values, v.isIntegerOrText = true) : TransitiveOn sortCompare values := by
  intro a ha b hb c hc hab hbc
  have hplain := h a ha
  have hplain' := h b hb
  have hplain'' := h c hc
  -- Integers stand in front of texts, so a chain leaves the integers at most once.
  cases a with
  | int i =>
    cases c with
    | int k =>
      cases b with
      | int j => exact @Std.TransCmp.isLE_trans Int compare _ _ _ _ hab hbc
      | string t => cases hbc
      | null | bool _ | float _ | dateTime _ | list _ => cases hplain'
    | string u => rfl
    | null | bool _ | float _ | dateTime _ | list _ => cases hplain''
  | string s =>
    cases b with
    | int j => cases hab
    | string t =>
      cases c with
      | int k => cases hbc
      | string u =>
        exact @Std.TransCmp.isLE_trans String compare _ _ _ _ hab hbc
      | null | bool _ | float _ | dateTime _ | list _ => cases hplain''
    | null | bool _ | float _ | dateTime _ | list _ => cases hplain'
  | null | bool _ | float _ | dateTime _ | list _ => cases hplain

theorem exists_int_of_kind {v : Value} (h : v.kind = "int") : ∃ i, v = .int i := by
  cases v with
  | int i => exact ⟨i, rfl⟩
  | null | bool _ | float _ | string _ | dateTime _ | list _ =>
    simp [kind] at h

theorem exists_string_of_kind {v : Value} (h : v.kind = "string") : ∃ s, v = .string s := by
  cases v with
  | string s => exact ⟨s, rfl⟩
  | null | bool _ | float _ | int _ | dateTime _ | list _ =>
    simp [kind] at h

/-- A value of the kind of an integer or a text is one, and is compared with it as it is sorted. -/
theorem compare?_eq_sortCompare {v w : Value} (hw : w.isIntegerOrText = true)
    (hkind : v.kind = w.kind) :
    v.isIntegerOrText = true ∧ v.compare? w = some (v.sortCompare w) := by
  cases w with
  | int j =>
    obtain ⟨i, rfl⟩ := exists_int_of_kind hkind
    exact ⟨rfl, rfl⟩
  | string t =>
    obtain ⟨s, rfl⟩ := exists_string_of_kind hkind
    exact ⟨rfl, rfl⟩
  | null | bool _ | float _ | dateTime _ | list _ => cases hw

end RowQuery.Value
