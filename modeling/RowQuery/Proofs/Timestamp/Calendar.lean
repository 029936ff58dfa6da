import RowQuery.Timestamp.Calendar

/-!
# Days and dates

The date of a day is a valid date, and the day of that date is the day itself: the year holds the day,
and going through its months finds the month that does.

Results:
* `monthOfDay_spec`: the month and its day that lie at a distance from 1 January.
* `isValid_ofDays`, `toDays_ofDays`: the date of a day is valid and leads back to the day.
-/

namespace RowQuery.Calendar

theorem daysInMonth_le (leap : Bool) (month : Nat) : daysInMonth leap month ≤ 31 := by
  unfold daysInMonth
  repeat' split
  all_goals decide

theorem daysBeforeMonth_succ (leap : Bool) (month : Nat) :
    daysBeforeMonth leap (month + 1) = daysBeforeMonth leap month + daysInMonth leap month := by
  cases month with
  | zero => rfl
  | succ month => rfl

/-- A year is as long as its months together. -/
theorem daysBeforeYear_succ (year : Int) :
    daysBeforeYear (year + 1) = daysBeforeYear year + daysBeforeMonth (isLeap year) 13 := by
  have hcommon : daysBeforeMonth false 13 = 365 := rfl
  have hleap : daysBeforeMonth true 13 = 366 := rfl
  unfold daysBeforeYear
  cases h : isLeap year with
  | true =>
    rw [hleap]
    simp only [isLeap, Bool.and_eq_true, Bool.or_eq_true, decide_eq_true_eq] at h
    omega
  | false =>
    rw [hcommon]
    simp only [isLeap, Bool.and_eq_false_iff, Bool.or_eq_false_iff, decide_eq_false_iff_not] at h
    omega

/-- The month found, looking from some month on, has the day, and the two lie where they should. -/
theorem monthOfDay_spec (leap : Bool) (months month rest : Nat)
    (h : daysBeforeMonth leap month + rest < daysBeforeMonth leap (month + months + 1)) :
    month ≤ (monthOfDay leap months month rest).1 ∧
      (monthOfDay leap months month rest).1 ≤ month + months ∧
      1 ≤ (monthOfDay leap months month rest).2 ∧
      (monthOfDay leap months month rest).2 ≤
        daysInMonth leap (monthOfDay leap months month rest).1 ∧
      daysBeforeMonth leap (monthOfDay leap months month rest).1 +
          (monthOfDay leap months month rest).2 =
        daysBeforeMonth leap month + rest + 1 := by
  induction months generalizing month rest with
  | zero =>
    rw [Nat.add_zero, daysBeforeMonth_succ] at h
    simp only [monthOfDay]
    omega
  | succ months ih =>
    rw [monthOfDay]
    split
    · next hrest =>
      simp only
      omega
    · next hrest =>
      have hsucc := daysBeforeMonth_succ leap month
      have hmonths : month + (months + 1) = month + 1 + months := by omega
      rw [hmonths] at h ⊢
      have hspec := ih (month + 1) (rest - daysInMonth leap month) (by omega)
      omega

section OfDays

variable (days : Int)

theorem daysBeforeMonth_add_lt :
    daysBeforeMonth (isLeap (yearOfDay days)) 1 + (days - daysBeforeYear (yearOfDay days)).toNat <
      daysBeforeMonth (isLeap (yearOfDay days)) (1 + 11 + 1) := by
  have hle := daysBeforeYear_yearOfDay_le days
  have hlt := lt_daysBeforeYear_yearOfDay_succ days
  rw [daysBeforeYear_succ] at hlt
  show 0 + _ < daysBeforeMonth (isLeap (yearOfDay days)) 13
  omega

/-- The month of a day is one of twelve. -/
theorem month_ofDays_le : (Date.ofDays days).month ≤ 12 :=
  (monthOfDay_spec _ 11 1 _ (daysBeforeMonth_add_lt days)).2.1

theorem day_ofDays_le : (Date.ofDays days).day ≤ 31 :=
  Nat.le_trans (monthOfDay_spec _ 11 1 _ (daysBeforeMonth_add_lt days)).2.2.2.1 (daysInMonth_le _ _)

/-- The date of a day is valid. -/
theorem isValid_ofDays : (Date.ofDays days).isValid = true := by
  obtain ⟨_, _, hpos, hle, _⟩ := monthOfDay_spec _ 11 1 _ (daysBeforeMonth_add_lt days)
  unfold Date.isValid
  rw [Bool.and_eq_true]
  exact ⟨decide_eq_true hpos, decide_eq_true hle⟩

/-- The date of a day leads back to the day. -/
theorem toDays_ofDays : (Date.ofDays days).toDays = days := by
  obtain ⟨_, _, _, _, hsum⟩ := monthOfDay_spec _ 11 1 _ (daysBeforeMonth_add_lt days)
  have hle := daysBeforeYear_yearOfDay_le days
  have hfirst : daysBeforeMonth (isLeap (yearOfDay days)) 1 = 0 := rfl
  unfold Date.toDays Date.ofDays
  simp only
  omega

end OfDays

end RowQuery.Calendar
