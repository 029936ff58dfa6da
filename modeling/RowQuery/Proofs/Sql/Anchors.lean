import RowQuery.Proofs.Sql.KeysetWindow
import RowQuery.Proofs.Sql.Writing
import RowQuery.Proofs.Timestamp.Reading
import RowQuery.Proofs.Value.Settled

/-!
# Anchors told apart

Paging by statement stands or falls with the texts of anchors, the values that a cursor records: if two of
them had one text, rows between them would be repeated or left out. Booleans, integers and texts have texts
of their own, and timestamps have them up to the milliseconds that a literal says. A literal also says
where it ends, so that predicates differ where the values in them do, whatever the columns are called.

Results:
* `literal_append_inj`: a literal in front of a parenthesis says its value and where it ends.
* `Keyset.holds_own`: what a predicate, as it is written, says of the row of its own cursor.
* `anchor_texts_eq_iff`: the texts of two anchors of a kind, and of the predicates of two cursors, are
  equal if and only if the values are to the millisecond; and the predicate of a row's own cursor selects
  the row if and only if a timestamp decides that lies beyond its literal.
* `anchor_texts_same_millisecond`: two timestamps in a millisecond have one text.
-/

namespace RowQuery

namespace Value

/-- Booleans, integers, texts and timestamps. -/
def isAnchor : Value → Bool
  | .bool _ | .int _ | .string _ | .dateTime _ => true
  | _ => false

/-- The value that a literal says: timestamps are settled and cut to milliseconds. -/
def toMillis : Value → Value
  | .dateTime t => .dateTime t.toMillis
  | v => v

/-- A settled anchor is no smaller than what its literal says, and a leap second inside a minute is
smaller. -/
theorem compare?_toMillis {v : Value} (h : v.isAnchor = true) :
    v.compare? v.toMillis =
      some (if v.toMillis = v then .eq else if v.areTimesSettled = true then .gt else .lt) := by
  cases v with
  | dateTime t =>
    show some (t.compare t.toMillis) =
      some (if dateTime t.toMillis = dateTime t then .eq else if t.isSettled = true then .gt else .lt)
    rw [t.compare_toMillis]
    by_cases ht : t.toMillis = t
    · rw [if_pos ht, if_pos (congrArg dateTime ht)]
    · rw [if_neg ht, if_neg fun hv => ht (dateTime.inj hv)]
  | bool b | int i | string s =>
    refine (congrArg some Std.ReflOrd.compare_self).trans ?_
    exact congrArg some (if_pos rfl).symm
  | null | float _ | list _ => cases h

end Value

namespace Sql

/-! ## Literals -/

theorem takeWhile_append_mark {mark : Char} {cs : List Char} (h : mark ∉ cs) (rest : List Char) :
    (cs ++ mark :: rest).takeWhile (· != mark) = cs := by
  have hcs : ∀ c ∈ cs, (c != mark) = true := fun c hc => bne_iff_ne.mpr fun heq => h (heq ▸ hc)
  rw [List.takeWhile_append_of_pos hcs, List.takeWhile_cons_of_neg (by simp), List.append_nil]

/-- What stands in front of the first mark and behind it. -/
theorem append_mark_inj {mark : Char} {cs ds xs ys : List Char} (hcs : mark ∉ cs) (hds : mark ∉ ds)
    (h : cs ++ mark :: xs = ds ++ mark :: ys) : cs = ds ∧ xs = ys := by
  have hfront : cs = ds := by
    rw [← takeWhile_append_mark hcs xs, h, takeWhile_append_mark hds]
  rw [hfront] at h
  exact ⟨hfront, (List.cons.inj (List.append_cancel_left h)).2⟩

namespace Quoted

theorem enclose_append (mark : Char) (inside rest : List Char) :
    enclose mark inside ++ rest = mark :: (inside ++ mark :: rest) := by
  unfold enclose
  rw [List.append_assoc]
  rfl

/-- A text that is not empty does not end at its first mark. -/
theorem encode_cons_append_ne {mark c : Char} {cs xs ys : List Char} (hys : ys.head? ≠ some mark) :
    encode mark (c :: cs) ++ xs ≠ mark :: ys := by
  unfold encode
  split
  · intro h
    rw [← (List.cons.inj h).2] at hys
    exact hys rfl
  · next hc => exact fun h => hc (List.cons.inj h).1

/-- Between marks a text says where it ends, if no mark follows. -/
theorem encode_append_inj {mark : Char} {cs ds xs ys : List Char} (hxs : xs.head? ≠ some mark)
    (hys : ys.head? ≠ some mark) (h : encode mark cs ++ mark :: xs = encode mark ds ++ mark :: ys) :
    cs = ds ∧ xs = ys := by
  induction cs generalizing ds with
  | nil =>
    cases ds with
    | nil => exact ⟨rfl, (List.cons.inj h).2⟩
    | cons d ds => exact absurd h.symm (encode_cons_append_ne hxs)
  | cons c cs ih =>
    cases ds with
    | nil => exact absurd h (encode_cons_append_ne hys)
    | cons d ds =>
      have hcons : c = d ∧ encode mark cs ++ mark :: xs = encode mark ds ++ mark :: ys := by
        unfold encode at h
        by_cases hc : c = mark
        · by_cases hd : d = mark
          · rw [if_pos hc, if_pos hd] at h
            exact ⟨hc.trans hd.symm, (List.cons.inj (List.cons.inj h).2).2⟩
          · rw [if_pos hc, if_neg hd] at h
            exact absurd (List.cons.inj h).1.symm hd
        · by_cases hd : d = mark
          · rw [if_neg hc, if_pos hd] at h
            exact absurd (List.cons.inj h).1 hc
          · rw [if_neg hc, if_neg hd] at h
            exact List.cons.inj h
      obtain ⟨hrest, htail⟩ := ih hcons.2
      exact ⟨by rw [hcons.1, hrest], htail⟩

end Quoted

theorem literal_toMillis (v : Value) :
    Dialect.standard.literal v.toMillis = Dialect.standard.literal v := by
  cases v with
  | dateTime t => exact congrArg (Quoted.enclose '\'') t.chars_toMillis
  | null | bool _ | int _ | float _ | string _ | list _ => rfl

/-- An integer ends in front of a parenthesis. -/
theorem intDigits_append_inj {i j : Int} {xs ys : List Char}
    (h : Text.intDigits i ++ ')' :: xs = Text.intDigits j ++ ')' :: ys) : i = j ∧ xs = ys := by
  have hparenthesis (i : Int) : ')' ∉ Text.intDigits i := by
    intro hmem
    rcases Text.eq_minus_or_isDigit_of_mem_intDigits hmem with h | h
    · exact absurd h (by decide)
    · exact absurd h (by decide)
  obtain ⟨hdigits, hrest⟩ := append_mark_inj (hparenthesis i) (hparenthesis j) h
  have hread := integer?_intDigits i
  rw [hdigits, integer?_intDigits] at hread
  exact ⟨(Option.some.inj hread).symm, hrest⟩

/-- A literal in front of a parenthesis says its value, to the millisecond, and where it ends. -/
theorem literal_append_inj {v w : Value} (hv : v.isAnchor = true) (hkind : v.kind = w.kind)
    {xs ys : List Char}
    (h : Dialect.standard.literal v ++ ')' :: xs = Dialect.standard.literal w ++ ')' :: ys) :
    v.toMillis = w.toMillis ∧ xs = ys := by
  have hmark {cs ds : List Char}
      (h : Quoted.enclose '\'' cs ++ ')' :: xs = Quoted.enclose '\'' ds ++ ')' :: ys) :
      cs ++ '\'' :: ')' :: xs = ds ++ '\'' :: ')' :: ys := by
    rw [Quoted.enclose_append, Quoted.enclose_append] at h
    exact (List.cons.inj h).2
  have hparenthesis (zs : List Char) : (')' :: zs).head? ≠ some '\'' :=
    fun hhead => absurd (Option.some.inj hhead) (by decide)
  cases v with
  | bool b =>
    cases w with
    | bool b' =>
      cases b with
      | true =>
        cases b' with
        | true => exact ⟨rfl, (List.cons.inj (List.cons.inj h).2).2⟩
        | false => exact absurd (List.cons.inj h).1 (by decide)
      | false =>
        cases b' with
        | true => exact absurd (List.cons.inj h).1 (by decide)
        | false => exact ⟨rfl, (List.cons.inj (List.cons.inj h).2).2⟩
    | null | int _ | float _ | string _ | dateTime _ | list _ => simp [Value.kind] at hkind
  | int i =>
    cases w with
    | int j =>
      obtain ⟨hint, hrest⟩ := intDigits_append_inj h
      exact ⟨congrArg Value.int (Int64.toInt_inj.mp hint), hrest⟩
    | null | bool _ | float _ | string _ | dateTime _ | list _ => simp [Value.kind] at hkind
  | string s =>
    cases w with
    | string s' =>
      obtain ⟨hchars, hrest⟩ := Quoted.encode_append_inj (hparenthesis xs) (hparenthesis ys) (hmark h)
      exact ⟨congrArg Value.string (String.toList_inj.mp hchars), (List.cons.inj hrest).2⟩
    | null | bool _ | int _ | float _ | dateTime _ | list _ => simp [Value.kind] at hkind
  | dateTime t =>
    cases w with
    | dateTime u =>
      obtain ⟨hchars, hrest⟩ :=
        append_mark_inj (t.mark_not_mem_chars .millis) (u.mark_not_mem_chars .millis) (hmark h)
      exact ⟨congrArg Value.dateTime (Timestamp.chars_millis_inj hchars), (List.cons.inj hrest).2⟩
    | null | bool _ | int _ | float _ | string _ | list _ => simp [Value.kind] at hkind
  | null | float _ | list _ => cases hv

/-! ## Predicates -/

/-- A key with the value that the literal of its recorded one says. -/
def saidPair (p : OrderKey × Value) : OrderKey × Value := (p.1, p.2.toMillis)

/-- A key with the kind of its recorded value. -/
def kindPair (p : OrderKey × Value) : OrderKey × String := (p.1, p.2.kind)

def KeyTerm.toMillis (t : KeyTerm) : KeyTerm := { t with value := t.value.toMillis }

theorem intercalate_concat {α : Type} (separator last : List α) (items : List (List α)) :
    List.intercalate separator (items ++ [last]) =
      (items.flatMap fun item => item ++ separator) ++ last := by
  induction items with
  | nil => exact List.intercalate_singleton
  | cons item items ih =>
    have hcons : List.intercalate separator (item :: (items ++ [last])) =
        item ++ separator ++ List.intercalate separator (items ++ [last]) := by
      cases items <;> exact List.intercalate_cons_cons
    rw [List.cons_append, hcons, ih, List.flatMap_cons, List.append_assoc (item ++ separator)]

namespace Keyset

/-- The predicate that the text of a predicate says. -/
def toMillis (k : Keyset) : Keyset := ⟨k.branches.map fun terms => terms.map KeyTerm.toMillis⟩

theorem branchesFrom_toMillis (side : Side) (equals : List KeyTerm) (pairs : List (OrderKey × Value)) :
    branchesFrom side (equals.map KeyTerm.toMillis) (pairs.map saidPair) =
      (branchesFrom side equals pairs).map fun terms => terms.map KeyTerm.toMillis := by
  induction pairs generalizing equals with
  | nil => rfl
  | cons p pairs ih =>
    have hequals : equals.map KeyTerm.toMillis ++ [equal (saidPair p)] =
        (equals ++ [equal p]).map KeyTerm.toMillis := by
      rw [List.map_append]
      rfl
    rw [List.map_cons, branchesFrom, hequals, ih, branchesFrom, List.map_cons, List.map_append]
    rfl

theorem toMillis_branchesFrom (side : Side) (pairs : List (OrderKey × Value)) :
    (⟨branchesFrom side [] pairs⟩ : Keyset).toMillis = ⟨branchesFrom side [] (pairs.map saidPair)⟩ :=
  congrArg Keyset.mk (branchesFrom_toMillis side [] pairs).symm

/-! ### Texts -/

section Texts

variable {r : Renderer}

/-- The terms in front of the last one of a branch. -/
def leadChars (r : Renderer) (terms : List KeyTerm) : List Char :=
  (terms.map (termChars r)).flatMap fun cs => cs ++ " AND ".toList

/-- What stands in front of the last value of a branch. -/
def frontChars (r : Renderer) (side : Side) (equals : List KeyTerm) (p : OrderKey × Value) : List Char :=
  '(' :: leadChars r equals ++ (r.identifier p.1.field ++ [' ', (beyond side p).relation.symbol, ' '])

/-- The branches behind another one. -/
def restChars (r : Renderer) (side : Side) (equals : List KeyTerm) :
    List (OrderKey × Value) → List Char
  | [] => []
  | pairs => " OR ".toList ++ (⟨branchesFrom side equals pairs⟩ : Keyset).chars r

/-- The text of a predicate up to the first value that is not an equal one, and behind it. -/
theorem chars_branchesFrom_cons (side : Side) (equals : List KeyTerm) (p : OrderKey × Value)
    (rest : List (OrderKey × Value)) :
    (⟨branchesFrom side equals (p :: rest)⟩ : Keyset).chars r =
      frontChars r side equals p ++
        (r.dialect.literal p.2 ++ ')' :: restChars r side (equals ++ [equal p]) rest) := by
  have hbranch : branchChars r (equals ++ [beyond side p]) =
      frontChars r side equals p ++ (r.dialect.literal p.2 ++ [')']) := by
    unfold branchChars frontChars leadChars
    rw [List.map_append, List.map_singleton, intercalate_concat]
    simp [termChars, beyond]
  cases rest with
  | nil => exact List.intercalate_singleton.trans hbranch
  | cons q rest =>
    have hsplit : (⟨branchesFrom side equals (p :: q :: rest)⟩ : Keyset).chars r =
        branchChars r (equals ++ [beyond side p]) ++ restChars r side (equals ++ [equal p]) (q :: rest) :=
      List.intercalate_cons_cons.trans (List.append_assoc _ _ _)
    rw [hsplit, hbranch, List.append_assoc, List.append_assoc]
    rfl

variable (hr : r.dialect = .standard)
include hr

theorem termChars_toMillis (t : KeyTerm) : termChars r t.toMillis = termChars r t := by
  unfold termChars
  rw [hr]
  exact congrArg (fun cs => r.identifier t.column ++ ' ' :: t.relation.symbol :: ' ' :: cs)
    (literal_toMillis t.value)

/-- The text of a predicate says it to the millisecond. -/
theorem chars_toMillis (k : Keyset) : k.toMillis.chars r = k.chars r := by
  have hbranch (terms : List KeyTerm) :
      branchChars r (terms.map KeyTerm.toMillis) = branchChars r terms := by
    unfold branchChars
    rw [List.map_map]
    simp only [Function.comp_def, termChars_toMillis hr]
  unfold chars toMillis
  rw [List.map_map]
  simp only [Function.comp_def, hbranch]

/-- The values of a predicate can be told from its text, to the millisecond, if their kinds are known. -/
theorem map_saidPair_of_chars_eq {side : Side} {equals equals' : List KeyTerm}
    {pairs pairs' : List (OrderKey × Value)} (hlead : leadChars r equals = leadChars r equals')
    (hkinds : pairs.map kindPair = pairs'.map kindPair) (hanchors : ∀ p ∈ pairs, p.2.isAnchor = true)
    (h : (⟨branchesFrom side equals pairs⟩ : Keyset).chars r =
      (⟨branchesFrom side equals' pairs'⟩ : Keyset).chars r) :
    pairs.map saidPair = pairs'.map saidPair := by
  induction pairs generalizing equals equals' pairs' with
  | nil =>
    cases pairs' with
    | nil => rfl
    | cons p' rest' => cases hkinds
  | cons p rest ih =>
    cases pairs' with
    | nil => cases hkinds
    | cons p' rest' =>
      obtain ⟨hp, hrest⟩ := List.cons.inj hkinds
      obtain ⟨hkey, hkind⟩ := Prod.mk.inj hp
      obtain ⟨hanchor, hanchors⟩ := List.forall_mem_cons.mp hanchors
      have hfront : frontChars r side equals p = frontChars r side equals' p' := by
        unfold frontChars beyond
        rw [hlead, hkey]
      rw [chars_branchesFrom_cons, chars_branchesFrom_cons, hfront, hr] at h
      obtain ⟨hvalue, htail⟩ := literal_append_inj hanchor hkind (List.append_cancel_left h)
      have hsaid : saidPair p = saidPair p' := Prod.ext hkey hvalue
      cases rest with
      | nil =>
        cases rest' with
        | nil => exact congrArg (fun q => [q]) hsaid
        | cons q' rest' => cases hrest
      | cons q rest =>
        cases rest' with
        | nil => cases hrest
        | cons q' rest' =>
          have hequal : termChars r (equal p) = termChars r (equal p') := by
            rw [← termChars_toMillis hr (equal p), ← termChars_toMillis hr (equal p')]
            exact congrArg (fun q => termChars r (equal q)) hsaid
          have hnext : leadChars r (equals ++ [equal p]) = leadChars r (equals' ++ [equal p']) := by
            unfold leadChars at hlead ⊢
            rw [List.map_append, List.map_append, List.flatMap_append, List.flatMap_append, hlead,
              List.map_singleton, List.map_singleton, hequal]
          exact congrArg₂ List.cons hsaid (ih hnext hrest hanchors (List.append_cancel_left htail))

end Texts

/-! ### Rows -/

section Own

variable {ρ : Type} [Record ρ] {row : ρ}

/-- What the predicate of a row's own cursor, as it is written, says of the row: it selects the row if the
first timestamp that its literal does not say exactly lies beyond the literal in the direction of the key,
and else leaves it out. -/
theorem holds_own {side : Side} {equals : List KeyTerm} {pairs : List (OrderKey × Value)}
    (hown : ∀ p ∈ pairs, Record.value row p.1.field = p.2 ∧ p.2.isAnchor = true) :
    ((branchesFrom side equals (pairs.map saidPair)).any fun terms => terms.all fun t => t.holds row) =
      ((equals.all fun t => t.holds row) &&
        (pairs.find? fun p => p.2.toMillis != p.2).any fun p =>
          ((side == .after) != p.1.descending) == p.2.areTimesSettled) := by
  induction pairs generalizing equals with
  | nil => exact (Bool.and_false _).symm
  | cons p pairs ih =>
    obtain ⟨⟨hvalue, hanchor⟩, hown⟩ := List.forall_mem_cons.mp hown
    have hterm (relation : Relation) : (⟨p.1.field, relation, p.2.toMillis⟩ : KeyTerm).holds row =
        ((if p.2.toMillis = p.2 then .eq else if p.2.areTimesSettled = true then .gt else .lt) ==
          relation.outcome) := by
      unfold KeyTerm.holds
      rw [hvalue, Value.compare?_toMillis hanchor]
      exact Option.some_beq_some
    have hequal : (equal (saidPair p)).holds row = (p.2.toMillis == p.2) := by
      rw [equal, saidPair, hterm]
      by_cases hp : p.2.toMillis = p.2
      · rw [if_pos hp, hp, beq_self_eq_true]
        rfl
      · rw [if_neg hp, beq_false_of_ne hp]
        cases p.2.areTimesSettled <;> rfl
    have hbeyond : (beyond side (saidPair p)).holds row =
        (p.2.toMillis != p.2 && (((side == .after) != p.1.descending) == p.2.areTimesSettled)) := by
      show (⟨p.1.field, if (side == .after) != p.1.descending then .gt else .lt,
        p.2.toMillis⟩ : KeyTerm).holds row = _
      rw [hterm]
      generalize ((side == .after) != p.1.descending) = forward
      by_cases hp : p.2.toMillis = p.2
      · rw [if_pos hp, bne, hp, beq_self_eq_true]
        cases forward <;> rfl
      · rw [if_neg hp, bne, beq_false_of_ne hp]
        cases forward <;> cases p.2.areTimesSettled <;> rfl
    rw [List.map_cons, branchesFrom, List.any_cons, ih hown, List.all_append, List.all_append,
      List.find?_cons]
    simp only [List.all_cons, List.all_nil, Bool.and_true]
    rw [hequal, hbeyond]
    -- A key that its literal says exactly ties, and the next one decides; any other key decides itself.
    by_cases hp : p.2.toMillis = p.2
    · rw [bne, hp, beq_self_eq_true]
      simp
    · rw [bne, beq_false_of_ne hp]
      simp

end Own

end Keyset

/-- Two anchors of a kind have the same text if and only if they are equal, timestamps to the millisecond,
and so have the predicates of two cursors that record anchors of the same kinds for the same leading keys.
As it is written, the predicate of a row's own cursor selects the row if and only if the first timestamp
that its literal does not say exactly lies beyond the literal in the direction of its key: a settled one
does behind the literal, a leap second inside a minute in front of it. -/
theorem anchor_texts_eq_iff (v w : Value) (r : Renderer) (order : List OrderKey) (side : Side)
    (c : Cursor) (k : Keyset) :
    (v.isAnchor = true → v.kind = w.kind →
      (Dialect.standard.literal v = Dialect.standard.literal w ↔ v.toMillis = w.toMillis)) ∧
    (r.dialect = .standard → Keyset.ofCursor? order c side = some k →
      (∀ p ∈ c.leading order, p.2.isAnchor = true) →
        (∀ (c' : Cursor) (k' : Keyset), Keyset.ofCursor? order c' side = some k' →
          (c.leading order).map kindPair = (c'.leading order).map kindPair →
          (k.chars r = k'.chars r ↔
            (c.leading order).map saidPair = (c'.leading order).map saidPair)) ∧
        k.toMillis.chars r = k.chars r ∧
        ∀ {ρ : Type} [Record ρ] (row : ρ), (∀ p ∈ c.leading order, Record.value row p.1.field = p.2) →
          (k.toMillis.holds row = true ↔
            ∃ p, (c.leading order).find? (fun p => p.2.toMillis != p.2) = some p ∧
              ((side == .after) != p.1.descending) = p.2.areTimesSettled)) := by
  constructor
  · intro hv hkind
    constructor
    · intro htext
      exact (literal_append_inj hv hkind (congrArg (· ++ [')']) htext)).1
    · intro hsaid
      rw [← literal_toMillis v, hsaid, literal_toMillis]
  · intro hr hk hanchors
    obtain rfl := Keyset.eq_of_ofCursor? hk
    refine ⟨?_, Keyset.chars_toMillis hr _, ?_⟩
    · intro c' k' hk' hkinds
      obtain rfl := Keyset.eq_of_ofCursor? hk'
      constructor
      · exact Keyset.map_saidPair_of_chars_eq hr rfl hkinds hanchors
      · intro hsaid
        rw [← Keyset.chars_toMillis hr, Keyset.toMillis_branchesFrom, hsaid,
          ← Keyset.toMillis_branchesFrom, Keyset.chars_toMillis hr]
    · intro ρ _ row hown
      have hholds : (Keyset.toMillis ⟨Keyset.branchesFrom side [] (c.leading order)⟩).holds row =
          ((c.leading order).find? fun p => p.2.toMillis != p.2).any fun p =>
            ((side == .after) != p.1.descending) == p.2.areTimesSettled := by
        rw [Keyset.toMillis_branchesFrom]
        exact Keyset.holds_own fun p hp => ⟨hown p hp, hanchors p hp⟩
      rw [hholds, Option.any_eq_true]
      simp only [beq_iff_eq]

/-- A point in time with microseconds. -/
def fineTime : Timestamp := ⟨1705314600, 123456000, by decide, by decide, by decide⟩

/-- A text, and a time with microseconds. -/
def notedPairs (text : String) : List (String × Value) :=
  [("note", .string text), ("at", .dateTime fineTime)]

theorem anchor_texts_eq_iff_notes :
    Dialect.standard.literal (.string "it's") ≠ Dialect.standard.literal (.string "it''s") ∧
      ∃ k k', Keyset.ofCursor? [.desc "note", .asc "at"] ⟨notedPairs "it's"⟩ .before = some k ∧
        Keyset.ofCursor? [.desc "note", .asc "at"] ⟨notedPairs "it''s"⟩ .before = some k' ∧
        k.chars ⟨.standard, false⟩ ≠ k'.chars ⟨.standard, false⟩ ∧
        k.toMillis.chars ⟨.standard, false⟩ = k.chars ⟨.standard, false⟩ ∧
        ¬k.toMillis.holds (⟨notedPairs "it's"⟩ : Row) = true := by
  obtain ⟨htexts, hpredicates⟩ := anchor_texts_eq_iff (.string "it's") (.string "it''s")
    ⟨.standard, false⟩ [.desc "note", .asc "at"] .before ⟨notedPairs "it's"⟩ _
  obtain ⟨hchars, hsaid, hown⟩ := hpredicates rfl rfl (by decide)
  refine ⟨?_, _, _, rfl, rfl, ?_, hsaid, ?_⟩
  · rw [Ne, htexts rfl rfl]
    decide
  · rw [Ne, hchars ⟨notedPairs "it''s"⟩ _ rfl rfl]
    decide
  · intro hholds
    -- The time is finer than its literal, but lies behind it, not in front.
    obtain ⟨p, hp, hbeyond⟩ := (hown (⟨notedPairs "it's"⟩ : Row) (by decide)).mp hholds
    cases hp
    exact absurd hbeyond (by decide)

/-- Two timestamps of a millisecond have one text, and so have the predicates of their cursors; behind its
own cursor, a row with the later one comes again. -/
theorem anchor_texts_same_millisecond :
    Value.dateTime fineTime ≠ .dateTime fineTime.toMillis ∧
      Dialect.standard.literal (.dateTime fineTime) = "'2024-01-15T10:30:00.123Z'".toList ∧
      Dialect.standard.literal (.dateTime fineTime.toMillis) = "'2024-01-15T10:30:00.123Z'".toList ∧
      ∃ k k', Keyset.ofCursor? [.asc "at"] ⟨[("at", .dateTime fineTime)]⟩ .after = some k ∧
        Keyset.ofCursor? [.asc "at"] ⟨[("at", .dateTime fineTime.toMillis)]⟩ .after = some k' ∧
        k.chars ⟨.standard, true⟩ = k'.chars ⟨.standard, true⟩ ∧
        k.toMillis.holds (⟨[("at", .dateTime fineTime)]⟩ : Row) = true := by
  refine ⟨by decide, by decide +kernel, by decide +kernel, _, _, rfl, rfl, ?_, by decide⟩
  exact (Keyset.chars_toMillis rfl _).symm

end Sql

end RowQuery
