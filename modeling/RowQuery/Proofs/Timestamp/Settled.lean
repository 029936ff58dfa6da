import RowQuery.Timestamp.Text

/-!
# The points in time that texts tell apart

A text has a place for a leap second at the end of a minute only, second 60. A leap second behind any
other second is written as the second that follows, and then nothing tells it from that second. A point
is settled if it has no leap second of this kind.

Results:
* `chars_settled`: a point has the text of its settled form.
* `settled_eq_self_iff`: a point is its own settled form if and only if it is settled.
-/

namespace RowQuery.Timestamp

variable (t : Timestamp)

/-- Whether the point lies in no leap second, or in one that ends a minute. -/
def isSettled : Bool := decide (t.nanos < 1000000000) || decide (t.seconds % 60 = 59)

theorem isSettled_iff : t.isSettled = true ↔ (1000000000 ≤ t.nanos → t.seconds % 60 = 59) := by
  rw [isSettled, Bool.or_eq_true, decide_eq_true_eq, decide_eq_true_eq, ← Nat.not_le, Decidable.imp_iff_not_or]

theorem isSettled_eq_false_iff :
    t.isSettled = false ↔ 1000000000 ≤ t.nanos ∧ t.seconds % 60 ≠ 59 := by
  rw [isSettled, Bool.or_eq_false_iff, decide_eq_false_iff_not, decide_eq_false_iff_not, Nat.not_lt]

/-- The point that the text says: a leap second inside a minute is the second that follows. -/
def settled : Timestamp where
  seconds := if t.isSettled then t.seconds else t.seconds + 1
  nanos := if t.isSettled then t.nanos else t.nanos - 1000000000
  nanos_lt := by
    have hlt := t.nanos_lt
    split
    · exact hlt
    · exact Nat.lt_of_le_of_lt (Nat.sub_le _ _) hlt
  first_le := by
    have hfirst := t.first_le
    split <;> omega
  le_last := by
    -- The last second of all ends a minute, so that another one follows any leap second inside a minute.
    have hlast := t.le_last
    split
    · exact hlast
    · next h =>
      obtain ⟨_, hsecond⟩ := t.isSettled_eq_false_iff.mp (Bool.not_eq_true _ ▸ h)
      omega

section Forms

variable {t}

theorem settled_eq_self (h : t.isSettled = true) : t.settled = t :=
  ext_parts (if_pos h) (if_pos h)

theorem seconds_settled_of_not (h : t.isSettled = false) : t.settled.seconds = t.seconds + 1 :=
  if_neg (Bool.eq_false_iff.mp h)

theorem nanos_settled_of_not (h : t.isSettled = false) : t.settled.nanos = t.nanos - 1000000000 :=
  if_neg (Bool.eq_false_iff.mp h)

end Forms

theorem settled_eq_self_iff : t.settled = t ↔ t.isSettled = true := by
  refine ⟨fun hself => ?_, settled_eq_self⟩
  cases h : t.isSettled with
  | true => rfl
  | false =>
    have hseconds := congrArg seconds hself
    rw [seconds_settled_of_not h] at hseconds
    omega

theorem isSettled_settled : t.settled.isSettled = true := by
  cases h : t.isSettled with
  | true => rwa [settled_eq_self h]
  | false =>
    have hlt := t.nanos_lt
    have hnanos := nanos_settled_of_not h
    exact t.settled.isSettled_iff.mpr fun hle => by omega

/-- A point in time has the text of its settled form. -/
theorem chars_settled (f : Fraction) : t.settled.chars f = t.chars f := by
  cases h : t.isSettled with
  | true => rw [settled_eq_self h]
  | false =>
    obtain ⟨hle, hsecond⟩ := t.isSettled_eq_false_iff.mp h
    have hlt := t.nanos_lt
    have hdate : t.settled.date = t.date := by
      have hday : (t.seconds + 1) / 86400 = t.seconds / 86400 := by omega
      rw [date, seconds_settled_of_not h, hday, date]
    -- The second that follows lies in the same minute.
    have hnext : t.settled.secondOfDay = t.secondOfDay + 1 := by
      rw [secondOfDay, seconds_settled_of_not h, secondOfDay]
      omega
    have hminute : (t.secondOfDay : Int) % 60 ≠ 59 := by
      unfold secondOfDay
      omega
    have hhour : (t.secondOfDay + 1) / 3600 = t.secondOfDay / 3600 := by omega
    have hminutes : (t.secondOfDay + 1) / 60 = t.secondOfDay / 60 := by omega
    have hwritten : (t.secondOfDay + 1) % 60 + (t.nanos - 1000000000) / 1000000000 =
        t.secondOfDay % 60 + t.nanos / 1000000000 := by omega
    have hfraction : (t.nanos - 1000000000) % 1000000000 = t.nanos % 1000000000 := by omega
    unfold chars
    simp only [hdate, hnext, nanos_settled_of_not h, hhour, hminutes, hwritten, hfraction]

end RowQuery.Timestamp
