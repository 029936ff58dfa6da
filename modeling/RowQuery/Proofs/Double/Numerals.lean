import RowQuery.Double.Text
import RowQuery.Proofs.Double.Shortest
import RowQuery.Proofs.Text.Digits

/-!
# The digits of a number

A layout decides where the point of a number stands, how many zeros fill up to it, and whether there is
an exponent. It does not decide which decimal number is written: point and zeros aside, the digits are
those of the shortest decimal.

Results:
* `decimalNumeral_digits`: what is written are digits, at least one of them in front of the point.
* `decimalNumeral_value`: what is written denotes the decimal.
* `nearestMagnitude_numeral`: in every layout the number written is rounded to the one it is written for.
-/

namespace RowQuery

namespace Numeral

/-- The integer that the digits of a number make up when its point is left out. -/
def significand (n : Numeral) : Nat := Text.ofDigits (n.whole ++ n.fraction)

/-- The power of ten that the last digit of a number counts. -/
def lastPlace (n : Numeral) : Int := n.exponent.getD 0 - n.fraction.length

end Numeral

namespace Double

namespace Layout

variable {l : Layout}

theorem wholeFraction_eq (l : Layout) : ∃ n, l.wholeFraction = List.replicate n '0' := by
  unfold wholeFraction
  split
  · exact ⟨1, rfl⟩
  · exact ⟨0, rfl⟩

theorem isDigit_of_mem_wholeFraction {c : Char} (h : c ∈ l.wholeFraction) : c.isDigit = true := by
  obtain ⟨n, hn⟩ := l.wholeFraction_eq
  rw [hn] at h
  exact Text.isDigit_of_mem_zeros h

/-- What is written are digits, at least one of them in front of the point; the first one is a zero only
if it is alone or leads the decimal as well. -/
theorem decimalNumeral_digits (l : Layout) (negative : Bool) {ds : List Char} (hne : ds ≠ [])
    (hds : ∀ c ∈ ds, c.isDigit = true) (exponent : Int) :
    (l.decimalNumeral negative ds exponent).whole ≠ [] ∧
      (∀ c ∈ (l.decimalNumeral negative ds exponent).whole, c.isDigit = true) ∧
      (∀ c ∈ (l.decimalNumeral negative ds exponent).fraction, c.isDigit = true) ∧
      ((l.decimalNumeral negative ds exponent).whole.head? = some '0' →
        (l.decimalNumeral negative ds exponent).whole = ['0'] ∨ ds.head? = some '0') := by
  obtain ⟨d, ds, rfl⟩ := List.exists_cons_of_ne_nil hne
  unfold decimalNumeral
  simp only
  split
  · exact ⟨List.cons_ne_nil _ _, fun c hc => hds c (List.mem_of_mem_take hc),
      fun c hc => hds c (List.mem_of_mem_drop hc), .inr⟩
  · split
    · refine ⟨List.cons_ne_nil _ _, fun c hc => ?_, fun c => isDigit_of_mem_wholeFraction, .inr⟩
      exact (List.mem_append.mp hc).elim (hds c) Text.isDigit_of_mem_zeros
    · split
      · next hposition =>
        obtain ⟨n, hn⟩ : ∃ n, (((d :: ds).length : Int) + exponent).toNat = n + 1 :=
          ⟨(((d :: ds).length : Int) + exponent).toNat - 1, by omega⟩
        rw [hn]
        exact ⟨List.cons_ne_nil _ _, fun c hc => hds c (List.mem_of_mem_take hc),
          fun c hc => hds c (List.mem_of_mem_drop hc), .inr⟩
      · refine ⟨List.cons_ne_nil _ _, fun c hc => ?_, fun c hc => ?_, fun _ => .inl rfl⟩
        · rw [List.mem_singleton.mp hc]
          rfl
        · exact (List.mem_append.mp hc).elim Text.isDigit_of_mem_zeros (hds c)

/-- Zeros fill up to the point or stand behind it; point and zeros aside, the decimal is written. -/
theorem decimalNumeral_value (l : Layout) (negative : Bool) {ds : List Char} (hne : ds ≠ [])
    (exponent : Int) : ∃ zeros : Nat,
      (l.decimalNumeral negative ds exponent).significand = Text.ofDigits ds * tenPow zeros ∧
      (l.decimalNumeral negative ds exponent).lastPlace = exponent - zeros := by
  have hlength : 0 < ds.length := List.length_pos_iff.mpr hne
  have hone (cs : List Char) : Text.ofDigits cs = Text.ofDigits cs * tenPow 0 := (Nat.mul_one _).symm
  unfold decimalNumeral
  simp only
  split
  · refine ⟨0, ?_, ?_⟩
    · rw [← hone]
      exact congrArg Text.ofDigits (List.take_append_drop 1 ds)
    · show ds.length + exponent - 1 - ((ds.drop 1).length : Int) = _
      rw [List.length_drop]
      omega
  · split
    · next hwhole =>
      obtain ⟨n, hn⟩ := l.wholeFraction_eq
      refine ⟨exponent.toNat + n, ?_, ?_⟩
      · show Text.ofDigits (ds ++ List.replicate exponent.toNat '0' ++ l.wholeFraction) = _
        rw [hn, List.append_assoc, List.replicate_append_replicate, Text.ofDigits_append_zeros]
        rfl
      · show (0 : Int) - (l.wholeFraction.length : Int) = _
        rw [hn, List.length_replicate]
        omega
    · split
      · refine ⟨0, ?_, ?_⟩
        · rw [← hone]
          exact congrArg Text.ofDigits (List.take_append_drop _ ds)
        · show (0 : Int) - ((ds.drop _).length : Int) = _
          rw [List.length_drop]
          omega
      · refine ⟨0, ?_, ?_⟩
        · rw [← hone]
          show Text.ofDigits (List.replicate 1 '0' ++ (List.replicate _ '0' ++ ds)) = _
          rw [Text.ofDigits_zeros_append, Text.ofDigits_zeros_append]
        · show (0 : Int) - ((List.replicate _ '0' ++ ds).length : Int) = _
          rw [List.length_append, List.length_replicate]
          omega

theorem negative_decimalNumeral (l : Layout) (negative : Bool) (ds : List Char) (exponent : Int) :
    (l.decimalNumeral negative ds exponent).negative = negative := by
  unfold decimalNumeral
  simp only
  repeat' split
  all_goals rfl

theorem negative_numeral (l : Layout) (x : Double) : (l.numeral x).negative = x.isNegative := by
  unfold numeral
  split
  · rfl
  · exact negative_decimalNumeral _ _ _ _

/-- In every layout the number that is written for a finite double is rounded to it. -/
theorem nearestMagnitude_numeral (l : Layout) {x : Double} (h : x.isFinite = true) :
    nearestMagnitude ((l.numeral x).significand * tenPow (l.numeral x).lastPlace.toNat)
      (tenPow (-(l.numeral x).lastPlace).toNat) = x.magnitude := by
  unfold numeral
  cases hzero : x.isZero with
  | true =>
    obtain ⟨n, hn⟩ := l.wholeFraction_eq
    have hnone : (⟨x.isNegative, ['0'], l.wholeFraction, none⟩ : Numeral).significand = 0 := by
      show Text.ofDigits (List.replicate 1 '0' ++ l.wholeFraction) = 0
      rw [Text.ofDigits_zeros_append, hn, ← List.nil_append (List.replicate n '0'),
        Text.ofDigits_append_zeros]
      exact Nat.zero_mul _
    have hmagnitude : x.magnitude = 0 := beq_iff_eq.mp hzero
    rw [if_pos rfl, hnone, Nat.zero_mul, hmagnitude]
    exact nearestMagnitude_of_exact (tenPow_pos _) (Nat.zero_le _) (Nat.zero_mul _)
  | false =>
    obtain ⟨_, hrounded⟩ := shortest_spec l.tie h hzero
    obtain ⟨zeros, hsignificand, hlast⟩ := l.decimalNumeral_value x.isNegative
      (Text.digits_ne_nil (x.shortest l.tie).digits) (x.shortest l.tie).exponent
    rw [if_neg (by simp), ← hrounded]
    refine nearestMagnitude_congr (tenPow_pos _) (tenPow_pos _) ?_
    rw [hsignificand, hlast, Text.ofDigits_digits, Nat.mul_assoc, Nat.mul_assoc, Nat.mul_assoc,
      ← tenPow_add, ← tenPow_add, ← tenPow_add]
    congr 2
    omega

end Layout

end Double

end RowQuery
