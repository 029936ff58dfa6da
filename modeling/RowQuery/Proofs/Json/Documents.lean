import RowQuery.Proofs.Json.Tokens
import RowQuery.Proofs.Outcome

/-!
# What is written in JSON is read back

A document whose parts all denote something is read back from its characters. Reading takes at most two
steps for each character, and what stands behind a document matters only if it prolongs a number.

Results:
* `readValue_chars`: a document is read back from the front of a text.
* `ofBytes?_encode`: a document is read back from its bytes.
-/

namespace RowQuery.Json

open Utf8 (Symbols)

mutual

/-- Whether a document has no part that denotes nothing, and only numbers that a document may have. -/
def isSound : Json → Bool
  | .null | .bool _ | .string _ => true
  | .number n => n.isCanonical
  | .array items => areItemsSound items
  | .object members => areMembersSound members
  | .garbled => false

def areItemsSound : List Json → Bool
  | [] => true
  | j :: rest => j.isSound && areItemsSound rest

def areMembersSound : List (String × Json) → Bool
  | [] => true
  | (_, j) :: rest => j.isSound && areMembersSound rest

end

theorem areItemsSound_iff {js : List Json} :
    areItemsSound js = true ↔ ∀ j ∈ js, j.isSound = true := by
  induction js with
  | nil => exact ⟨fun _ => nofun, fun _ => rfl⟩
  | cons j js ih => rw [areItemsSound, Bool.and_eq_true, ih, List.forall_mem_cons]

/-! ## The first character -/

/-- Whether a document may start with a character. -/
def startsDocument (c : Char) : Bool :=
  c.isDigit || ['n', 't', 'f', '"', '[', '\x7b', '-'].contains c

theorem skipBlanks_of_starts {c : Char} (h : startsDocument c = true) (rest : Symbols) :
    skipBlanks (some c :: rest) = some c :: rest := by
  have hblank : isBlank (some c) = false := by
    cases hblank : isBlank (some c) with
    | false => rfl
    | true =>
      unfold isBlank at hblank
      simp only [Bool.or_eq_true, decide_eq_true_eq, Option.some.injEq] at hblank
      rcases hblank with ((rfl | rfl) | rfl) | rfl <;> exact absurd h (by decide)
  unfold skipBlanks
  rw [List.dropWhile_cons, hblank]
  rfl

theorem exists_chars_numeral {n : Numeral} (h : n.isCanonical = true) :
    ∃ c cs, n.chars true = c :: cs ∧ (c = '-' ∨ c.isDigit = true) := by
  obtain ⟨hne, hwhole, _⟩ := Numeral.isCanonical_iff.mp h
  obtain ⟨d, ds, hds⟩ := List.exists_cons_of_ne_nil hne
  unfold Numeral.chars
  cases n.negative with
  | true => exact ⟨'-', _, rfl, .inl rfl⟩
  | false =>
    rw [hds]
    exact ⟨d, _, rfl, .inr (hwhole d (by rw [hds]; exact List.mem_cons_self))⟩

theorem exists_chars_cons {j : Json} (h : j.isSound = true) :
    ∃ c cs, j.chars = c :: cs ∧ startsDocument c = true := by
  cases j with
  | null => exact ⟨'n', _, rfl, by decide⟩
  | bool b =>
    cases b with
    | true => exact ⟨'t', _, rfl, by decide⟩
    | false => exact ⟨'f', _, rfl, by decide⟩
  | number n =>
    obtain ⟨c, cs, hcs, hc⟩ := exists_chars_numeral h
    refine ⟨c, cs, hcs, ?_⟩
    rcases hc with rfl | hc
    · decide
    · unfold startsDocument
      rw [hc]
      rfl
  | string s => exact ⟨'"', _, rfl, by decide⟩
  | array items => exact ⟨'[', _, rfl, by decide⟩
  | object members => exact ⟨'\x7b', _, rfl, by decide⟩
  | garbled => cases h

/-! ## Documents -/

theorem readValue_number {c : Char} (hc : c = '-' ∨ c.isDigit = true) (steps : Nat) (rest : Symbols) :
    readValue (steps + 1) (some c :: rest) =
      (readNumber (some c :: rest)).map fun (n, rest) => (.number n, rest) := by
  have hstart : startsDocument c = true := by
    rcases hc with rfl | hc
    · decide
    · unfold startsDocument
      rw [hc]
      rfl
  rw [readValue, skipBlanks_of_starts hstart]
  split
  case h_7 => rfl
  all_goals
    next heq =>
      cases heq
      exact absurd hc (by decide)

theorem readValue_array {c : Char} (hc : startsDocument c = true) (steps : Nat) (rest : Symbols) :
    readValue (steps + 1) (some '[' :: some c :: rest) =
      (readItems steps (some c :: rest)).map fun (js, rest) => (.array js, rest) := by
  rw [readValue, skipBlanks_of_starts (by decide)]
  simp only [skipBlanks_of_starts hc]
  split
  · next heq =>
    cases heq
    exact absurd hc (by decide)
  · rfl

theorem readValue_object (steps : Nat) (rest : Symbols) :
    readValue (steps + 1) (some '\x7b' :: some '"' :: rest) =
      (readMembers steps (some '"' :: rest)).map fun (ms, rest) => (objectOf ms, rest) := rfl

theorem objectOf_map (members : List (String × Json)) :
    objectOf (members.map fun m => (some m.1, m.2)) = .object members := by
  unfold objectOf
  rw [Outcome.mapM_map_eq_some]
  exact fun _ _ => rfl

/-- A name is read back, and what follows the colon is read as a document. -/
theorem readMembers_quoted (name : String) (steps : Nat) (rest : Symbols) :
    readMembers (steps + 1) ((quoted name).map some ++ some ':' :: rest) = (do
      let (j, rest) ← readValue steps rest
      match skipBlanks rest with
      | some '\x7d' :: rest => some ([(some name, j)], rest)
      | some ',' :: rest => do
        let (ms, rest) ← readMembers steps rest
        some ((some name, j) :: ms, rest)
      | _ => none) := by
  show (readString ((name.toList.flatMap escape ++ ['"']).map some ++ some ':' :: rest) >>= _) = _
  rw [readString_quoted]
  rfl

theorem endsNumber_cons {c : Char} (h : c = ',' ∨ c = ']' ∨ c = '\x7d') (rest : Symbols) :
    EndsNumber (some c :: rest) := by
  intro d hd
  cases hd
  rcases h with rfl | rfl | rfl <;> decide

theorem exists_itemChars_cons {js : List Json} (hne : js ≠ []) (h : areItemsSound js = true) :
    ∃ c cs, itemChars js = c :: cs ∧ startsDocument c = true := by
  obtain ⟨j, js, rfl⟩ := List.exists_cons_of_ne_nil hne
  obtain ⟨c, cs, hcs, hc⟩ := exists_chars_cons (Bool.and_eq_true_iff.mp h).1
  cases js with
  | nil => exact ⟨c, cs, hcs, hc⟩
  | cons k js =>
    refine ⟨c, cs ++ ',' :: itemChars (k :: js), ?_, hc⟩
    rw [itemChars, hcs]
    rfl

theorem exists_memberChars_cons {ms : List (String × Json)} (hne : ms ≠ []) :
    ∃ cs, memberChars ms = '"' :: cs := by
  obtain ⟨m, ms, rfl⟩ := List.exists_cons_of_ne_nil hne
  cases ms with
  | nil => exact ⟨_, rfl⟩
  | cons m' ms => exact ⟨_, rfl⟩

mutual

/-- A document is read back from the front of a text. -/
theorem readValue_chars (j : Json) (h : j.isSound = true) {rest : Symbols} (hr : EndsNumber rest)
    (steps : Nat) (hs : 2 * j.chars.length ≤ steps) :
    readValue steps (j.chars.map some ++ rest) = some (j, rest) := by
  have hpos : 0 < j.chars.length := by
    obtain ⟨c, cs, hcs, _⟩ := exists_chars_cons h
    rw [hcs]
    exact Nat.succ_pos _
  obtain ⟨steps, rfl⟩ : ∃ n, steps = n + 1 := ⟨steps - 1, by omega⟩
  cases j with
  | null => rfl
  | bool b => cases b <;> rfl
  | number n =>
    obtain ⟨c, cs, hcs, hc⟩ := exists_chars_numeral h
    have hread := readNumber_chars h hr
    rw [hcs, List.map_cons, List.cons_append] at hread
    show readValue (steps + 1) ((n.chars true).map some ++ rest) = _
    rw [hcs, List.map_cons, List.cons_append, readValue_number hc, hread]
    rfl
  | string s =>
    show (readString ((s.toList.flatMap escape ++ ['"']).map some ++ rest)).map _ = _
    rw [readString_quoted]
    rfl
  | array items =>
    by_cases hne : items = []
    · subst hne
      rfl
    · have hlength : (chars (.array items)).length = (itemChars items).length + 2 := by
        simp [chars]
      obtain ⟨c, cs, hcs, hc⟩ := exists_itemChars_cons hne h
      have hread := readItems_chars items hne h rest steps (by omega)
      have hchars : (chars (.array items)).map some ++ rest =
          some '[' :: ((itemChars items).map some ++ some ']' :: rest) := by
        simp [chars]
      rw [hcs, List.map_cons, List.cons_append] at hread hchars
      rw [hchars, readValue_array hc, hread]
      rfl
  | object members =>
    by_cases hne : members = []
    · subst hne
      rfl
    · have hlength : (chars (.object members)).length = (memberChars members).length + 2 := by
        simp [chars]
      have hread := readMembers_chars members hne h rest steps (by omega)
      have hchars : (chars (.object members)).map some ++ rest =
          some '\x7b' :: ((memberChars members).map some ++ some '\x7d' :: rest) := by
        simp [chars]
      obtain ⟨cs, hcs⟩ := exists_memberChars_cons hne
      rw [hcs, List.map_cons, List.cons_append] at hread hchars
      rw [hchars, readValue_object, hread, Option.map_some]
      simp only [objectOf_map]
  | garbled => cases h

/-- The elements of an array are read back. -/
theorem readItems_chars (js : List Json) (hne : js ≠ []) (h : areItemsSound js = true)
    (rest : Symbols) (steps : Nat) (hs : 2 * (itemChars js).length + 1 ≤ steps) :
    readItems steps ((itemChars js).map some ++ some ']' :: rest) = some (js, rest) := by
  obtain ⟨steps, rfl⟩ : ∃ n, steps = n + 1 := ⟨steps - 1, by omega⟩
  cases js with
  | nil => exact absurd rfl hne
  | cons j js =>
    obtain ⟨hj, hjs⟩ := Bool.and_eq_true_iff.mp h
    cases js with
    | nil =>
      have hread := readValue_chars j hj (endsNumber_cons (.inr (.inl rfl)) rest)
        steps (Nat.le_of_succ_le_succ hs)
      rw [readItems, itemChars, hread]
      rfl
    | cons k js =>
      have hlength : (itemChars (j :: k :: js)).length =
          j.chars.length + ((itemChars (k :: js)).length + 1) := by
        simp [itemChars]
      have hchars : (itemChars (j :: k :: js)).map some ++ some ']' :: rest =
          j.chars.map some ++ some ',' :: ((itemChars (k :: js)).map some ++ some ']' :: rest) := by
        simp [itemChars]
      have hread := readItems_chars (k :: js) (List.cons_ne_nil k js) hjs rest steps
        (by omega)
      have hhead := readValue_chars j hj (endsNumber_cons (.inl rfl)
        ((itemChars (k :: js)).map some ++ some ']' :: rest)) steps (by omega)
      rw [hchars, readItems, hhead]
      show (readItems steps ((itemChars (k :: js)).map some ++ some ']' :: rest) >>= _) = _
      rw [hread]
      rfl

/-- The members of an object are read back. -/
theorem readMembers_chars (ms : List (String × Json)) (hne : ms ≠ []) (h : areMembersSound ms = true)
    (rest : Symbols) (steps : Nat) (hs : 2 * (memberChars ms).length + 1 ≤ steps) :
    readMembers steps ((memberChars ms).map some ++ some '\x7d' :: rest) =
      some (ms.map fun m => (some m.1, m.2), rest) := by
  obtain ⟨steps, rfl⟩ : ∃ n, steps = n + 1 := ⟨steps - 1, by omega⟩
  cases ms with
  | nil => exact absurd rfl hne
  | cons m ms =>
    obtain ⟨name, j⟩ := m
    obtain ⟨hj, hms⟩ := Bool.and_eq_true_iff.mp h
    cases ms with
    | nil =>
      have hlength : (memberChars [(name, j)]).length = (quoted name).length + (j.chars.length + 1) := by
        simp [memberChars]
      have hchars : (memberChars [(name, j)]).map some ++ some '\x7d' :: rest =
          (quoted name).map some ++ some ':' :: (j.chars.map some ++ some '\x7d' :: rest) := by
        simp [memberChars]
      have hread := readValue_chars j hj (endsNumber_cons (.inr (.inr rfl)) rest)
        steps (by omega)
      rw [hchars, readMembers_quoted, hread]
      rfl
    | cons m ms =>
      have hlength : (memberChars ((name, j) :: m :: ms)).length =
          (quoted name).length + (j.chars.length + ((memberChars (m :: ms)).length + 2)) := by
        simp [memberChars]
        omega
      have hchars : (memberChars ((name, j) :: m :: ms)).map some ++ some '\x7d' :: rest =
          (quoted name).map some ++ some ':' :: (j.chars.map some ++
            some ',' :: ((memberChars (m :: ms)).map some ++ some '\x7d' :: rest)) := by
        simp [memberChars]
      have hread := readMembers_chars (m :: ms) (List.cons_ne_nil m ms) hms rest steps
        (by omega)
      have hhead := readValue_chars j hj (endsNumber_cons (.inl rfl)
        ((memberChars (m :: ms)).map some ++ some '\x7d' :: rest)) steps (by omega)
      rw [hchars, readMembers_quoted, hhead]
      show (readMembers steps ((memberChars (m :: ms)).map some ++ some '\x7d' :: rest) >>= _) = _
      rw [hread]
      rfl

end

/-- A document is read back from its text. -/
theorem ofSymbols?_chars {j : Json} (h : j.isSound = true) : ofSymbols? (j.chars.map some) = some j := by
  have hread := readValue_chars j h endsNumber_nil (2 * j.chars.length + 2) (by omega)
  rw [List.append_nil] at hread
  unfold ofSymbols?
  rw [List.length_map, hread]
  rfl

/-- A document is read back from its bytes. -/
theorem ofBytes?_encode {j : Json} (h : j.isSound = true) :
    ofBytes? (Utf8.encode j.chars) = some j := by
  unfold ofBytes?
  rw [Utf8.decode_encode, ofSymbols?_chars h]

end RowQuery.Json
