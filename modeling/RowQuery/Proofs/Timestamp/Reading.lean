import RowQuery.Proofs.Text.Blank
import RowQuery.Proofs.Text.Digits
import RowQuery.Proofs.Timestamp.Calendar
import RowQuery.Proofs.Timestamp.Settled
import RowQuery.Timestamp.Reading

/-!
# The exact text of a timestamp is read back

Each field of the text has a width of its own or ends in front of a character that is no digit, and the
fraction has as many digits as it needs. The fields of a leap second at the end of a minute are those of
the second before it, except for the second itself, which is 60. A leap second inside a minute is read
back as the second that follows, whose text it has.

Results:
* `readNumber_padded`, `readYear_chars`, `readFraction_chars`: the fields are read back.
* `ofLocal?_fields`: the fields of a settled point give the point.
* `ofText?_exactText`: the exact text of a point is read back as its settled form.
* `read?_chars_millis`: the text with milliseconds is read back to the millisecond.
* `compare_toMillis`: on which side of a point lies what its text with milliseconds says.
-/

namespace RowQuery.Timestamp

/-! ## Numbers -/

/-- No digit follows. -/
def NoDigit (rest : List Char) : Prop := ∀ c, rest.head? = some c → c.isDigit = false

section Numbers

variable {ds rest : List Char} {width n : Nat}

theorem takeWhile_take_append (h : ∀ c ∈ ds, c.isDigit = true) (hle : ds.length ≤ width)
    (hr : ds.length = width ∨ NoDigit rest) :
    ((ds ++ rest).take width).takeWhile Char.isDigit = ds := by
  have hrest : (rest.take (width - ds.length)).takeWhile Char.isDigit = [] := by
    rcases hr with hr | hr
    · rw [hr, Nat.sub_self]
      rfl
    · cases rest with
      | nil => rw [List.take_nil]; rfl
      | cons c rest =>
        cases width - ds.length with
        | zero => rfl
        | succ k => rw [List.take_succ_cons, List.takeWhile_cons, hr c rfl]; rfl
  rw [List.take_append, List.take_of_length_le hle, List.takeWhile_append_of_pos h, hrest,
    List.append_nil]

theorem readNumber_append (hne : ds ≠ []) (h : ∀ c ∈ ds, c.isDigit = true)
    (hle : ds.length ≤ width) (hr : ds.length = width ∨ NoDigit rest) :
    readNumber width (ds ++ rest) = some (Text.ofDigits ds, rest) := by
  have hempty : ds.isEmpty = false := by simpa using hne
  unfold readNumber
  simp only [takeWhile_take_append h hle hr, hempty]
  rw [List.drop_left]
  rfl

/-- A number filled up with zeros is read back. -/
theorem readNumber_padded (hpos : 0 < width) (h : n < 10 ^ width) (rest : List Char) :
    readNumber width (Text.padded width n ++ rest) = some (n, rest) := by
  have hlength := Text.length_padded hpos h
  rw [readNumber_append (Text.padded_ne_nil width n) (fun c hc => Text.isDigit_of_mem_padded hc)
    (Nat.le_of_eq hlength) (.inl hlength), Text.ofDigits_padded]

theorem trimStart_padded (width n : Nat) (rest : List Char) :
    Text.trimStart (Text.padded width n ++ rest) = Text.padded width n ++ rest := by
  obtain ⟨d, ds, hds⟩ := List.exists_cons_of_ne_nil (Text.padded_ne_nil width n)
  have hd : d.isDigit = true := Text.isDigit_of_mem_padded (by rw [hds]; exact List.mem_cons_self)
  rw [hds]
  exact Text.trimStart_eq_self (Text.isBlank_of_isDigit hd)

theorem readField_padded {last : Nat} (hlast : n ≤ last) (h : n < 100) (rest : List Char) :
    readField last (Text.padded 2 n ++ rest) = some (n, rest) := by
  unfold readField
  rw [trimStart_padded, readNumber_padded (by decide) h]
  exact if_pos hlast

/-- A character that is no blank is read where it stands. -/
theorem readChar_trimStart {c : Char} (h : Text.isBlank c = false) (rest : List Char) :
    readChar c (Text.trimStart (c :: rest)) = some rest := by
  rw [Text.trimStart_eq_self h]
  exact if_pos rfl

end Numbers

/-! ## Fields -/

theorem readYear_of_isDigit {d : Char} (h : d.isDigit = true) (rest : List Char) :
    readYear (d :: rest) =
      (readNumber 4 (d :: rest)).map fun (n, rest) => ((n : Int), rest) := by
  unfold readYear
  rw [Text.trimStart_eq_self (Text.isBlank_of_isDigit h)]
  split
  · next heq =>
    cases heq
    exact absurd h (by decide)
  · next heq =>
    cases heq
    exact absurd h (by decide)
  · rfl

/-- A year is read back, if no digit follows it. -/
theorem readYear_chars (year : Int) {rest : List Char} (hr : NoDigit rest) :
    readYear (yearChars year ++ rest) = some (year, rest) := by
  have hdigits {n : Nat} : ∀ c ∈ Text.padded 4 n, c.isDigit = true :=
    fun c hc => Text.isDigit_of_mem_padded hc
  unfold yearChars
  split
  · next h =>
    have hread : readNumber 4 (Text.padded 4 year.toNat ++ rest) = some (year.toNat, rest) :=
      readNumber_padded (by decide) (by omega) rest
    obtain ⟨d, ds, hds⟩ := List.exists_cons_of_ne_nil (Text.padded_ne_nil 4 year.toNat)
    have hd : d.isDigit = true := hdigits d (by rw [hds]; exact List.mem_cons_self)
    rw [hds, List.cons_append] at hread ⊢
    rw [readYear_of_isDigit hd, hread]
    show some ((year.toNat : Int), rest) = _
    rw [Int.toNat_of_nonneg h.1]
  · next h =>
    -- A signed year is read to its last digit, however many digits it has.
    have hread : readNumber (Text.padded 4 year.natAbs ++ rest).length
        (Text.padded 4 year.natAbs ++ rest) = some (year.natAbs, rest) := by
      rw [readNumber_append (Text.padded_ne_nil 4 _) hdigits (by simp) (.inr hr),
        Text.ofDigits_padded]
    by_cases hneg : year < 0
    · have hvalue : -(year.natAbs : Int) = year := by omega
      rw [if_pos hneg]
      show (readNumber (Text.padded 4 year.natAbs ++ rest).length
        (Text.padded 4 year.natAbs ++ rest)).map _ = _
      rw [hread]
      show some (-(year.natAbs : Int), rest) = _
      rw [hvalue]
    · have hvalue : (year.natAbs : Int) = year := by omega
      rw [if_neg hneg]
      show (readNumber (Text.padded 4 year.natAbs ++ rest).length
        (Text.padded 4 year.natAbs ++ rest)).map _ = _
      rw [hread]
      show some ((year.natAbs : Int), rest) = _
      rw [hvalue]

theorem readFraction_point {width n : Nat} (hpos : 0 < width) (hle : width ≤ 9)
    (h : n < 10 ^ width) {rest : List Char} (hr : NoDigit rest) :
    readFraction ('.' :: (Text.padded width n ++ rest)) = some (10 ^ (9 - width) * n, rest) := by
  have hlength := Text.length_padded hpos h
  have hdigits : ∀ c ∈ Text.padded width n, c.isDigit = true :=
    fun c hc => Text.isDigit_of_mem_padded hc
  have htake := takeWhile_take_append hdigits (hlength.symm ▸ hle) (.inr hr)
  have hempty : (Text.padded width n).isEmpty = false := by
    simpa using Text.padded_ne_nil width n
  have hvalue : Text.ofDigits (Text.padded width n ++ List.replicate (9 - width) '0') =
      10 ^ (9 - width) * n := by
    unfold Text.ofDigits
    rw [Nat.ofDigitChars_append, Nat.ofDigitChars_replicate_zero]
    exact congrArg _ (Text.ofDigits_padded width n)
  have hrest : rest.dropWhile Char.isDigit = rest := by
    cases rest with
    | nil => rfl
    | cons c rest => rw [List.dropWhile_cons, hr c rfl]; rfl
  have hdrop : (Text.padded width n ++ rest).drop width = rest := List.drop_left' hlength
  unfold readFraction
  simp only [htake, hempty, hlength, hvalue, hdrop, hrest]
  rfl

/-- The fraction of a second is read back in front of the offset. -/
theorem readFraction_chars {nanos : Nat} (h : nanos < 1000000000) :
    readFraction (Fraction.exact.chars nanos ++ ['Z']) = some (nanos, ['Z']) := by
  have hr : NoDigit ['Z'] := fun c hc => by cases hc; decide
  unfold Fraction.chars
  simp only
  split
  · next hzero =>
    rw [hzero]
    rfl
  · split
    · next hmillis =>
      have hvalue : 10 ^ (9 - 3) * (nanos / 1000000) = nanos := by omega
      rw [List.cons_append, readFraction_point (by decide) (by decide) (by omega) hr, hvalue]
    · split
      · next hmicros =>
        have hvalue : 10 ^ (9 - 6) * (nanos / 1000) = nanos := by omega
        rw [List.cons_append, readFraction_point (by decide) (by decide) (by omega) hr, hvalue]
      · rw [List.cons_append, readFraction_point (by decide) (by decide) h hr, Nat.sub_self,
          Nat.pow_zero, Nat.one_mul]

theorem readDate_chars {d : Calendar.Date} (hmonth : d.month ≤ 12) (hday : d.day ≤ 31)
    (rest : List Char) :
    readDate (yearChars d.year ++ '-' :: (Text.padded 2 d.month ++
      '-' :: (Text.padded 2 d.day ++ rest))) = some (d, rest) := by
  have hdash {cs : List Char} : NoDigit ('-' :: cs) := fun c hc => by cases hc; decide
  have hread {cs : List Char} : readChar '-' (Text.trimStart ('-' :: cs)) = some cs :=
    readChar_trimStart (by decide) cs
  have hmonth := readField_padded hmonth (Nat.lt_of_le_of_lt hmonth (by decide))
  have hday := readField_padded hday (Nat.lt_of_le_of_lt hday (by decide))
  unfold readDate
  rw [readYear_chars d.year hdash]
  simp only [Option.bind_eq_bind, Option.bind_some, hread, hmonth, hday]

/-! ## The point in time -/

section Point

variable (t : Timestamp)

/-- The second that is written, which is 60 in a leap second. -/
def writtenSecond : Nat := t.secondOfDay % 60 + t.nanos / 1000000000

theorem secondOfDay_lt : t.secondOfDay < 86400 := by
  unfold secondOfDay
  omega

/-- At most the last second of a minute and a leap second behind it are written. -/
theorem writtenSecond_le : t.writtenSecond ≤ 60 := by
  have hnanos := t.nanos_lt
  unfold writtenSecond
  omega

variable {t} in
/-- The fields of a settled point lead back to it. -/
theorem ofLocal?_fields (h : t.isSettled = true) :
    ofLocal? t.date (t.secondOfDay / 3600 * 60 + t.secondOfDay / 60 % 60) t.writtenSecond
      (t.nanos % 1000000000) 0 = some t := by
  have hdays : t.date.toDays = t.seconds / 86400 + Calendar.epochDay := Calendar.toDays_ofDays _
  have hvalid : t.date.isValid = true := Calendar.isValid_ofDays _
  have hlt := t.secondOfDay_lt
  have hsecond : (t.secondOfDay : Int) = t.seconds % 86400 := by
    unfold secondOfDay
    omega
  have hnanos := t.nanos_lt
  have hleap := t.isSettled_iff.mp h
  have hseconds : (t.date.toDays - Calendar.epochDay) * 86400 +
      ((t.secondOfDay / 3600 * 60 + t.secondOfDay / 60 % 60 : Nat) : Int) * 60 +
        ((if t.writtenSecond = 60 then 59 else t.writtenSecond : Nat) : Int) = t.seconds := by
    rw [hdays]
    unfold writtenSecond
    split <;> omega
  have hfraction : t.nanos % 1000000000 + (if t.writtenSecond = 60 then 1000000000 else 0) =
      t.nanos := by
    unfold writtenSecond
    split <;> omega
  unfold ofLocal?
  rw [hvalid]
  simp only [Int.natAbs_zero, Int.sub_zero]
  rw [hseconds, hfraction, ofParts?_parts]
  exact ofParts?_parts t

variable {t} in
/-- The characters of a timestamp are read field by field, whatever fraction is written. -/
theorem read?_chars_of_fraction {f : Fraction} {nanos : Nat}
    (hfraction : readFraction (f.chars (t.nanos % 1000000000) ++ ['Z']) = some (nanos, ['Z'])) :
    read? (t.chars f) =
      ofLocal? t.date (t.secondOfDay / 3600 * 60 + t.secondOfDay / 60 % 60) t.writtenSecond nanos 0 := by
  have hlt := t.secondOfDay_lt
  have hdate := readDate_chars (d := t.date) (Calendar.month_ofDays_le _) (Calendar.day_ofDays_le _)
  have hhour : t.secondOfDay / 3600 ≤ 23 := by omega
  have hminute : t.secondOfDay / 60 % 60 ≤ 59 := by omega
  have hhour := readField_padded hhour (Nat.lt_of_le_of_lt hhour (by decide))
  have hminute := readField_padded hminute (Nat.lt_of_le_of_lt hminute (by decide))
  have hsecond := readField_padded t.writtenSecond_le
    (Nat.lt_of_le_of_lt t.writtenSecond_le (by decide))
  have hcolon {cs : List Char} : readChar ':' (Text.trimStart (':' :: cs)) = some cs :=
    readChar_trimStart (by decide) cs
  have hoffset : readOffset (Text.trimStart ['Z']) = some (0, []) := by decide
  unfold writtenSecond at hsecond ⊢
  unfold read? chars
  simp only [List.append_assoc, List.cons_append]
  rw [hdate]
  simp only [Option.bind_eq_bind, Option.bind_some, true_or, if_true, hhour, hcolon, hminute,
    hsecond, hfraction, hoffset]
  exact if_pos rfl

/-- The exact characters of a timestamp are read back as its settled form. -/
theorem read?_chars : read? (t.chars .exact) = some t.settled := by
  rw [← t.chars_settled]
  exact (read?_chars_of_fraction (readFraction_chars (Nat.mod_lt _ (by decide)))).trans
    (ofLocal?_fields t.isSettled_settled)

/-- The exact text of a timestamp is read back as its settled form. -/
theorem ofText?_exactText : ofText? t.exactText = some t.settled := by
  unfold ofText? exactText
  rw [String.toList_ofList, read?_chars]

/-! ## Milliseconds -/

/-- The beginning of the millisecond of the point. -/
def floorMillis : Timestamp where
  seconds := t.seconds
  nanos := t.nanos / 1000000 * 1000000
  nanos_lt := Nat.lt_of_le_of_lt (Nat.div_mul_le_self _ _) t.nanos_lt
  first_le := t.first_le
  le_last := t.le_last

theorem nanos_floorMillis : t.floorMillis.nanos = t.nanos / 1000000 * 1000000 := rfl

variable {t} in
theorem isSettled_floorMillis (h : t.isSettled = true) : t.floorMillis.isSettled = true :=
  t.floorMillis.isSettled_iff.mpr fun hle =>
    t.isSettled_iff.mp h (Nat.le_trans hle (Nat.div_mul_le_self _ _))

/-- Nothing that a text with milliseconds says is left out. -/
theorem chars_floorMillis : t.floorMillis.chars .millis = t.chars .millis := by
  have hsecond : t.nanos / 1000000 * 1000000 / 1000000000 = t.nanos / 1000000000 := by omega
  have hmillis : t.nanos / 1000000 * 1000000 % 1000000000 / 1000000 =
      t.nanos % 1000000000 / 1000000 := by omega
  unfold chars floorMillis Fraction.chars date secondOfDay
  simp only [hsecond, hmillis]

/-- The point in time that a text with milliseconds says. -/
def toMillis : Timestamp := t.settled.floorMillis

theorem chars_toMillis : t.toMillis.chars .millis = t.chars .millis :=
  (chars_floorMillis t.settled).trans (t.chars_settled .millis)

/-- The characters with milliseconds are read back to the millisecond. -/
theorem read?_chars_millis : read? (t.chars .millis) = some t.toMillis := by
  have hr : NoDigit ['Z'] := fun c hc => by cases hc; decide
  have hlast : t.toMillis.nanos % 1000000000 / 1000000 < 10 ^ 3 := by omega
  have hvalue : 10 ^ (9 - 3) * (t.toMillis.nanos % 1000000000 / 1000000) =
      t.toMillis.nanos % 1000000000 := by
    rw [toMillis, nanos_floorMillis]
    omega
  have hfraction : readFraction (Fraction.millis.chars (t.toMillis.nanos % 1000000000) ++ ['Z']) =
      some (t.toMillis.nanos % 1000000000, ['Z']) := by
    unfold Fraction.chars
    rw [List.cons_append, readFraction_point (by decide) (by decide) hlast hr, hvalue]
  rw [← chars_toMillis]
  exact (read?_chars_of_fraction hfraction).trans
    (ofLocal?_fields (isSettled_floorMillis t.isSettled_settled))

/-- Two points in time have the same text with milliseconds if they differ in less than these. -/
theorem chars_millis_inj {t u : Timestamp} (h : t.chars .millis = u.chars .millis) :
    t.toMillis = u.toMillis := by
  have hread := t.read?_chars_millis
  rw [h, read?_chars_millis] at hread
  exact (Option.some.inj hread).symm

theorem compare_floorMillis : t.compare t.floorMillis = if t.floorMillis = t then .eq else .gt := by
  split
  · next h =>
    rw [h]
    exact compare_eq_eq_iff.mpr rfl
  · next h =>
    have hne : t.floorMillis.nanos ≠ t.nanos := fun hnanos => h (ext_parts rfl hnanos)
    have hlt : t.floorMillis.nanos < t.nanos := Nat.lt_of_le_of_ne (Nat.div_mul_le_self _ _) hne
    have hseconds : Ord.compare t.seconds t.floorMillis.seconds = .eq := Std.ReflOrd.compare_self
    have hnanos : Ord.compare t.nanos t.floorMillis.nanos = .gt := Nat.compare_eq_gt.mpr hlt
    unfold compare
    rw [hseconds, hnanos]
    rfl

/-- A settled point lies behind what its text with milliseconds says, or there, and any other one lies in
front of it. -/
theorem compare_toMillis :
    t.compare t.toMillis =
      if t.toMillis = t then .eq else if t.isSettled = true then .gt else .lt := by
  cases h : t.isSettled with
  | true =>
    unfold toMillis
    rw [settled_eq_self h, compare_floorMillis]
    rfl
  | false =>
    have hseconds : t.toMillis.seconds = t.seconds + 1 := seconds_settled_of_not h
    have hlt : Ord.compare t.seconds t.toMillis.seconds = .lt := Int.compare_eq_lt.mpr (by omega)
    have hne : t.toMillis ≠ t := fun hself => by
      rw [hself] at hseconds
      omega
    unfold compare
    rw [hlt, if_neg hne]
    rfl

end Point

end RowQuery.Timestamp
