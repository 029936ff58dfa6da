import Mathlib.Data.List.TakeDrop
import RowQuery.Proofs.Double.PlainText
import RowQuery.Proofs.Text.Blank
import RowQuery.Proofs.Text.Digits
import RowQuery.Settings.Environment

/-!
# A name given by a variable

The value of a variable is read as a truth value, an integer or a number where it has that form, and a
setting that is a text then gets the written form of what was read. A name that denotes such a value is
therefore replaced by another spelling of it: `TRUE` by `true`, `007` by `7`, `1e3` by `1000`. The same name
given as data is taken as it is.

Results:
* `Double.ofText?_eq_none`: a text that does not start like a number denotes none, three words aside.
* `settingOfVariable_of_denotes`, `denotes_settingOfVariable`: the value of a variable is read as what it
  denotes, and as itself if it denotes nothing.
* `exists_text_of_denotes`: what is read has a written form that is not blank.
* `override_as_written_iff`: the field that breaks ties when a variable names it, and when this is the name
  as it was written.
-/

namespace RowQuery

/-! ## Texts that start like a number -/

namespace Text

/-- The characters that a number may start with. -/
def isNumberStart (c : Char) : Bool := c.isDigit || c == '+' || c == '-' || c == '.'

/-- Whether a text starts like a number. -/
def startsNumber (s : String) : Bool := s.toList.head?.any isNumberStart

theorem startsNumber_of_toList {s : String} {c : Char} {cs : List Char} (h : s.toList = c :: cs) :
    startsNumber s = isNumberStart c := by
  unfold startsNumber
  rw [h]
  rfl

theorem not_numberStart {c : Char} (h : isNumberStart c = false) :
    c.isDigit = false ∧ c ≠ '+' ∧ c ≠ '-' ∧ c ≠ '.' := by
  simpa [isNumberStart, and_assoc] using h

/-- What a number starts with stands in front of the letters. -/
theorem toNat_le_of_isNumberStart {c : Char} (h : isNumberStart c = true) : c.toNat ≤ 57 := by
  simp only [isNumberStart, Bool.or_eq_true, beq_iff_eq] at h
  rcases h with ((hdigit | rfl) | rfl) | rfl
  · have hrange : 48 ≤ c.toNat ∧ c.toNat ≤ 57 := by
      simpa [Char.isDigit, UInt32.le_iff_toNat_le] using hdigit
    exact hrange.2
  · decide
  · decide
  · decide

theorem lowerChar_of_isNumberStart {c : Char} (h : isNumberStart c = true) : lowerChar c = c := by
  have hle := toNat_le_of_isNumberStart h
  have hkelvin : c ≠ kelvinSign := by
    rintro rfl
    exact absurd hle (by decide)
  have hcapital : ¬(c.val ≥ 'A'.val ∧ c.val ≤ 'Z'.val) := by
    rintro ⟨hfirst, _⟩
    have hfirst : 65 ≤ c.toNat := UInt32.le_iff_toNat_le.mp hfirst
    omega
  unfold lowerChar
  rw [if_neg hkelvin]
  exact dif_neg hcapital

theorem startsNumber_lower {s : String} (h : startsNumber s = true) :
    startsNumber (lower s) = true := by
  cases hs : s.toList with
  | nil => simp [startsNumber, hs] at h
  | cons c cs =>
    have hlower : (lower s).toList = lowerChar c :: cs.map lowerChar := by simp [lower, hs]
    rw [startsNumber_of_toList hs] at h
    rw [startsNumber_of_toList hlower, lowerChar_of_isNumberStart h]
    exact h

/-- The Kelvin sign aside, lower case is that of the ASCII letters. -/
theorem lower_eq_of_toLower {s w : String} (hw : kelvinSign ∉ w.toList)
    (h : String.ofList (s.toList.map Char.toLower) = w) : lower s = w := by
  subst h
  rw [String.toList_ofList] at hw
  refine congrArg String.ofList (List.map_congr_left fun c hc => if_neg ?_)
  rintro rfl
  exact hw (List.mem_map.mpr ⟨kelvinSign, hc, by decide⟩)

end Text

namespace Double

/-- The words that denote numbers, in lower case. -/
def numberWords : List String := ["inf", "infinity", "nan"]

theorem unsignedOf?_eq_none {c : Char} {cs : List Char} (h : Text.isNumberStart c = false)
    (hwords : String.ofList ((c :: cs).map Char.toLower) ∉ numberWords) (negative : Bool) :
    unsignedOf? negative (c :: cs) = none := by
  obtain ⟨hdigit, _, _, hpoint⟩ := Text.not_numberStart h
  simp only [numberWords, List.mem_cons, List.not_mem_nil, or_false, not_or] at hwords
  obtain ⟨hinf, hinfinity, hnan⟩ := hwords
  have hwhole : Text.splitDigits (c :: cs) = ([], c :: cs) := by
    simp [Text.splitDigits, List.span_eq_takeWhile_dropWhile, hdigit]
  unfold unsignedOf?
  rw [if_neg (not_or.mpr ⟨hinf, hinfinity⟩), if_neg hnan, hwhole]
  simp only
  split
  · next heq => exact absurd (List.cons.inj heq).1 hpoint
  · rfl

/-- A text that does not start like a number denotes none, unless it is one of the words that do. -/
theorem ofText?_eq_none {s : String} (h : Text.startsNumber s = false)
    (hwords : Text.lower s ∉ numberWords) : ofText? s = none := by
  unfold ofText?
  cases hs : s.toList with
  | nil => decide
  | cons c cs =>
    rw [Text.startsNumber_of_toList hs] at h
    obtain ⟨_, hplus, hminus, _⟩ := Text.not_numberStart h
    split
    · next heq => exact absurd (List.cons.inj heq).1 hminus
    · next heq => exact absurd (List.cons.inj heq).1 hplus
    · refine unsignedOf?_eq_none h (fun hword => hwords ?_) false
      have hkelvin : ∀ w ∈ numberWords, Text.kelvinSign ∉ w.toList := by decide
      rw [← hs] at hword
      rw [Text.lower_eq_of_toLower (hkelvin _ hword) rfl]
      exact hword

end Double

namespace Settings

theorem intOfChars?_eq_none {c : Char} {cs : List Char} (h : Text.isNumberStart c = false) :
    intOfChars? (c :: cs) = none := by
  obtain ⟨hdigit, hplus, hminus, _⟩ := Text.not_numberStart h
  unfold intOfChars?
  split
  next negative ds hsign =>
    split at hsign
    · next heq => exact absurd (List.cons.inj heq).1 hminus
    · next heq => exact absurd (List.cons.inj heq).1 hplus
    · cases hsign
      simp [hdigit]

theorem startsNumber_of_int64OfText? {s : String} {i : Int64} (h : int64OfText? s = some i) :
    Text.startsNumber s = true := by
  obtain ⟨n, hn, _⟩ := Option.bind_eq_some_iff.mp h
  cases hs : s.toList with
  | nil =>
    rw [hs] at hn
    cases hn
  | cons c cs =>
    rw [Text.startsNumber_of_toList hs, ← Bool.not_eq_false]
    intro hc
    rw [hs, intOfChars?_eq_none hc] at hn
    cases hn

/-! ## What a text denotes -/

/-- What a text denotes that has the form of a truth value, of an integer of 64 bits or else of a number. -/
inductive Denotes (s : String) : Setting → Prop
  | truth (b : Bool) (h : Text.lower s = if b then "true" else "false") : Denotes s (.bool b)
  | integer {i : Int64} (h : int64OfText? s = some i) : Denotes s (.int i)
  | number {x : Double} (hinteger : int64OfText? s = none) (h : Double.ofText? s = some x) :
    Denotes s (.float x)

/-- A text that denotes a value starts like a number or is one of five words. -/
theorem lower_mem_of_denotes {s : String} {v : Setting} (h : Denotes s v)
    (hstart : Text.startsNumber s = false) :
    Text.lower s ∈ "true" :: "false" :: Double.numberWords := by
  cases h with
  | truth b h =>
    rw [h]
    cases b <;> decide
  | integer h =>
    rw [startsNumber_of_int64OfText? h] at hstart
    cases hstart
  | number hinteger h =>
    refine List.mem_cons_of_mem _ (List.mem_cons_of_mem _ (Decidable.byContradiction fun hwords => ?_))
    rw [Double.ofText?_eq_none hstart hwords] at h
    cases h

/-- What denotes a number has not the letters of a truth value. -/
theorem lower_ne_of_isSome {s : String}
    (h : (int64OfText? s).isSome = true ∨ (Double.ofText? s).isSome = true) :
    Text.lower s ≠ "true" ∧ Text.lower s ≠ "false" := by
  have hletters : ∀ w ∈ ["true", "false"], Text.startsNumber w = false ∧ w ∉ Double.numberWords := by
    decide
  have hlower : Text.lower s ∉ ["true", "false"] := by
    intro hmem
    obtain ⟨hletter, hwords⟩ := hletters _ hmem
    have hstart : Text.startsNumber s = false := by
      rw [← Bool.not_eq_true]
      intro hstart
      rw [Text.startsNumber_lower hstart] at hletter
      cases hletter
    rcases h with hinteger | hnumber
    · obtain ⟨i, hi⟩ := Option.isSome_iff_exists.mp hinteger
      rw [startsNumber_of_int64OfText? hi] at hstart
      cases hstart
    · rw [Double.ofText?_eq_none hstart hwords] at hnumber
      cases hnumber
  simpa using hlower

/-- The value of a variable is read as what it denotes, which is one value at most. -/
theorem settingOfVariable_of_denotes {s : String} {v : Setting} (h : Denotes s v) :
    settingOfVariable s = v := by
  unfold settingOfVariable
  cases h with
  | truth b h =>
    rw [h]
    cases b <;> rfl
  | integer h =>
    obtain ⟨htrue, hfalse⟩ := lower_ne_of_isSome (.inl (Option.isSome_of_mem h))
    simp only [if_neg htrue, if_neg hfalse, h]
  | number hinteger h =>
    obtain ⟨htrue, hfalse⟩ := lower_ne_of_isSome (.inr (Option.isSome_of_mem h))
    simp only [if_neg htrue, if_neg hfalse, hinteger, h]

/-- The value of a variable is read as itself if it denotes nothing. -/
theorem denotes_settingOfVariable (s : String) :
    Denotes s (settingOfVariable s) ∨ settingOfVariable s = .text s := by
  unfold settingOfVariable
  simp only
  split
  · next h => exact .inl (.truth true h)
  · split
    · next h => exact .inl (.truth false h)
    · split
      · next h => exact .inl (.integer h)
      · next hinteger =>
        split
        · next h => exact .inl (.number hinteger h)
        · exact .inr rfl

/-! ## The text of a value -/

theorem isBlankName_ofList {cs : List Char} (hne : cs ≠ []) (h : ∀ c ∈ cs, Text.isBlank c = false) :
    isBlankName (String.ofList cs) = false := by
  have htrim : Text.trim cs = cs := by
    have hall := Text.trim_of_blank (List.forall_mem_nil _) h (List.forall_mem_nil _)
    rwa [List.nil_append, List.append_nil] at hall
  unfold isBlankName
  rw [String.toList_ofList, htrim]
  exact List.isEmpty_eq_false_iff.mpr hne

theorem isBlankName_intDigits (i : Int) : isBlankName (String.ofList (Text.intDigits i)) = false := by
  refine isBlankName_ofList (Text.intDigits_ne_nil i) fun c hc => ?_
  rcases Text.eq_minus_or_isDigit_of_mem_intDigits hc with rfl | hdigit
  · decide
  · exact Text.isBlank_of_isDigit hdigit

theorem isBlankName_plainChars (x : Double) : isBlankName (String.ofList x.plainChars) = false := by
  cases hfinite : x.isFinite with
  | true =>
    refine isBlankName_ofList (Double.plainChars_ne_nil hfinite) fun c hc => ?_
    rcases Double.mem_plainChars hfinite hc with rfl | rfl | hdigit
    · decide
    · decide
    · exact Text.isBlank_of_isDigit hdigit
  | false =>
    unfold Double.plainChars Double.Layout.chars
    rw [hfinite, if_neg Bool.false_ne_true]
    split
    · decide
    · split <;> decide

/-- What a text denotes has a written form that is not blank. -/
theorem exists_text_of_denotes {s : String} {v : Setting} (h : Denotes s v) :
    ∃ t, v.toText? = some t ∧ isBlankName t = false := by
  cases h with
  | truth b h => cases b <;> exact ⟨_, rfl, by decide⟩
  | integer h => exact ⟨_, rfl, isBlankName_intDigits _⟩
  | number hinteger h => exact ⟨_, rfl, isBlankName_plainChars _⟩

/-! ## The settings -/

/-- The variable that names the field that breaks ties. -/
def tiebreakerVariable : String := "QUERY_ENGINE__PAGINATION__TIEBREAKER_FIELD"

/-- The standard settings with another field that breaks ties. -/
def standardWith (tiebreaker : String) : Settings :=
  { standard with pagination := { PageOptions.standard with tiebreaker := tiebreaker } }

/-- The tree of the standard settings with another setting for the field that breaks ties. -/
def treeWith (tiebreaker : Setting) : Setting :=
  .table
    [("pagination",
      .table
        [("tiebreaker_field", tiebreaker), ("cursor_strategy", .text "keyset"),
          ("include_total_count", .bool true)]),
      ("sql", .table [("quote_identifiers", .bool false)])]

theorem keyOfVariable?_tiebreakerVariable :
    keyOfVariable? tiebreakerVariable = some "pagination.tiebreaker_field" := by
  decide +kernel

theorem ofText_tiebreakerField :
    Setting.ofText "pagination.tiebreaker_field" = [.name "pagination", .name "tiebreaker_field"] := by
  decide +kernel

theorem ofText_pagination : Setting.ofText "pagination" = [.name "pagination"] := by
  decide +kernel

theorem lower_names : Text.lower "pagination" = "pagination" ∧
    Text.lower "tiebreaker_field" = "tiebreaker_field" := by
  decide +kernel

/-- The field that breaks ties is laid over the standard one by its path. -/
theorem putAll_path (s : Setting) :
    standard.toTree.putAll [("pagination.tiebreaker_field", s)] =
      treeWith ((Setting.text "id").overlay s) := by
  simp only [Setting.putAll, List.foldl_cons, List.foldl_nil, ofText_tiebreakerField, Setting.put,
    lower_names]
  rfl

/-- The field that breaks ties is laid over the standard one in its section. -/
theorem putAll_section (s : Setting) :
    standard.toTree.putAll [("pagination", .table [("tiebreaker_field", s)])] =
      treeWith ((Setting.text "id").overlay s) := by
  simp only [Setting.putAll, List.foldl_cons, List.foldl_nil, ofText_pagination, Setting.put,
    Setting.overlay, Setting.overlayEntries, lower_names]
  rfl

theorem toSettings?_treeWith {s : Setting} {t : String} (h : s.toText? = some t) :
    (treeWith s).toSettings? = some (standardWith t) := by
  have hstrategy : CursorStrategy.ofName? (Text.lower "keyset") = some .keyset :=
    ofName?_lower_name .keyset
  simp [treeWith, standardWith, standard, SqlOptions.standard, PageOptions.standard,
    Setting.toSettings?, Setting.section?, Setting.lookup?, Setting.defaulted?, Setting.toPageOptions?,
    Setting.toSqlOptions?, Setting.toStrategy?, Setting.toBool?, hstrategy, h]

/-- A setting that has a text is not merged with the one that was there. -/
theorem overlay_of_toText? {target s : Setting} {t : String} (h : s.toText? = some t) :
    target.overlay s = s := by
  cases s with
  | table es => cases h
  | null | bool _ | int _ | float _ | text _ | list _ => rfl

/-- A source that gives the field that breaks ties alone changes it alone, if its text is not blank. -/
theorem ofSource_of_tree {source : List (String × Setting)} {s : Setting} {t : String}
    (htree : standard.toTree.putAll source = treeWith ((Setting.text "id").overlay s))
    (h : s.toText? = some t) (ht : isBlankName t = false) : ofSource source = .ok (standardWith t) := by
  have hblank : ¬isBlankName (standardWith t).pagination.tiebreaker = true := by
    rw [Bool.not_eq_true]
    exact ht
  unfold ofSource
  rw [htree, overlay_of_toText? h, toSettings?_treeWith h]
  exact if_neg hblank

theorem sourceOfVariables_tiebreaker {before after : List (String × String)}
    (hothers : ∀ v ∈ before ++ after, keyOfVariable? v.1 = none) (s : String) :
    sourceOfVariables (before ++ (tiebreakerVariable, s) :: after) =
      [("pagination.tiebreaker_field", settingOfVariable s)] := by
  have hnone {vars : List (String × String)} (h : ∀ v ∈ vars, keyOfVariable? v.1 = none) :
      vars.filterMap (fun v => (keyOfVariable? v.1).map (·, settingOfVariable v.2)) = [] :=
    List.filterMap_eq_nil_iff.mpr fun v hv => by rw [h v hv]; rfl
  obtain ⟨hbefore, hafter⟩ := List.forall_mem_append.mp hothers
  have hkey := keyOfVariable?_tiebreakerVariable
  unfold sourceOfVariables
  rw [List.filterMap_append, hnone hbefore, List.filterMap_cons_some (by rw [hkey]; rfl), hnone hafter]
  rfl

/-- A variable that names the field that breaks ties changes it alone, if no other variable gives a
setting. -/
theorem ofEnvironment_tiebreaker {before after : List (String × String)}
    (hothers : ∀ v ∈ before ++ after, keyOfVariable? v.1 = none) {s t : String}
    (h : (settingOfVariable s).toText? = some t) (ht : isBlankName t = false) :
    ofEnvironment (before ++ (tiebreakerVariable, s) :: after) = .ok (standardWith t) := by
  unfold ofEnvironment
  rw [sourceOfVariables_tiebreaker hothers]
  exact ofSource_of_tree (putAll_path _) h ht

/-- When one variable alone gives a setting and names the field that breaks ties, by a name that is not
blank, the settings are the standard ones with some field that breaks ties. If the name denotes a truth
value, an integer of 64 bits or else a number, this field is the written form of that value; so it is the
name as it was written if and only if every value that the name denotes is written like it. A name that does
not start like a number is taken as it is, five words aside. Given as data, every name is. -/
theorem override_as_written_iff {before after : List (String × String)} {s : String}
    (hothers : ∀ v ∈ before ++ after, keyOfVariable? v.1 = none) (hs : isBlankName s = false) :
    ∃ t, ofEnvironment (before ++ (tiebreakerVariable, s) :: after) = .ok (standardWith t) ∧
      (∀ v, Denotes s v → v.toText? = some t) ∧
      (t = s ↔ ∀ v, Denotes s v → v.toText? = some s) ∧
      (Text.startsNumber s = false → Text.lower s ∉ "true" :: "false" :: Double.numberWords → t = s) ∧
      ofSource [("pagination", .table [("tiebreaker_field", .text s)])] = .ok (standardWith s) := by
  have hdata : ofSource [("pagination", .table [("tiebreaker_field", .text s)])] =
      .ok (standardWith s) := ofSource_of_tree (putAll_section _) rfl hs
  rcases denotes_settingOfVariable s with hdenotes | hself
  · obtain ⟨t, ht, hblank⟩ := exists_text_of_denotes hdenotes
    have hform : ∀ v, Denotes s v → v.toText? = some t := by
      intro v hv
      rw [← settingOfVariable_of_denotes hv]
      exact ht
    refine ⟨t, ofEnvironment_tiebreaker hothers ht hblank, hform, ⟨?_, ?_⟩, ?_, hdata⟩
    · rintro rfl
      exact hform
    · intro h
      exact Option.some.inj (ht.symm.trans (h _ hdenotes))
    · intro hstart hwords
      exact absurd (lower_mem_of_denotes hdenotes hstart) hwords
  · have hnone (v : Setting) : ¬Denotes s v := by
      intro hv
      have hread := settingOfVariable_of_denotes hv
      rw [hself] at hread
      subst hread
      cases hv
    refine ⟨s, ofEnvironment_tiebreaker hothers (by rw [hself]; rfl) hs, fun v hv => absurd hv (hnone v),
      ?_, fun _ _ => rfl, hdata⟩
    exact iff_of_true rfl fun v hv => absurd hv (hnone v)

/-- The word for infinity is replaced by its short form. -/
theorem override_as_written_infinity :
    keyOfVariable? "PATH" = none ∧ isBlankName "Infinity" = false ∧
      ofEnvironment [("PATH", "/bin"), (tiebreakerVariable, "Infinity")] = .ok (standardWith "inf") := by
  have hothers : ∀ v ∈ [("PATH", "/bin")] ++ ([] : List (String × String)), keyOfVariable? v.1 = none := by
    decide +kernel
  have hs : isBlankName "Infinity" = false := by decide +kernel
  have hdenotes : Denotes "Infinity" (.float (Double.infinity false)) :=
    .number (by decide +kernel) (by decide +kernel)
  have ht : (Setting.float (Double.infinity false)).toText? = some "inf" := by decide +kernel
  obtain ⟨t, hresult, hform, _⟩ := override_as_written_iff hothers hs
  obtain rfl := Option.some.inj ((hform _ hdenotes).symm.trans ht)
  exact ⟨hothers ("PATH", "/bin") List.mem_cons_self, hs, hresult⟩

/-- A field named by digits with zeros in front loses the zeros. -/
theorem override_drops_zeros :
    ¬∀ s, isBlankName s = false → ofEnvironment [(tiebreakerVariable, s)] = .ok (standardWith s) := by
  intro h
  have hwritten := h "007" (by decide +kernel)
  have htaken : ofEnvironment [(tiebreakerVariable, "007")] = .ok (standardWith "7") :=
    @ofEnvironment_tiebreaker [] [] (List.forall_mem_nil _) "007" "7" (by decide +kernel) (by decide +kernel)
  rw [htaken] at hwritten
  exact absurd hwritten (by decide +kernel)

end Settings

end RowQuery
