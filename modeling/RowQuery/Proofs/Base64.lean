import RowQuery.Base64
import RowQuery.Text.Blank

/-!
# What is written in base64 is read back

Three bytes are four numbers below 64, and one or two bytes at the end are two or three. Each number is
written as a symbol of the alphabet, which is one byte. Read back, the numbers of a group give its bytes,
and the bits that a last number has too many are zero.

Results:
* `chars_of_mem_encode`: what is written has letters, digits, `-` and `_` alone.
* `decode_encode`: what is written is read back.
-/

namespace RowQuery.Base64

/-! ## Symbols -/

/-- Whether a character is a letter, a digit, `-` or `_`. -/
def isAddressChar (c : Char) : Bool := c.isAlphanum || c = '-' || c = '_'

/-- The byte of the symbol of a number. -/
def symbolByte (n : Nat) : UInt8 := UInt8.ofNat (symbol n).toNat

theorem symbol_isAddressChar :
    ∀ n < 64, isAddressChar (symbol n) = true ∧ Text.isBlank (symbol n) = false := by
  decide +kernel

theorem symbolByte_ne_padding : ∀ n < 64, symbolByte n ≠ paddingByte := by
  decide +kernel

theorem utf8EncodeChar_symbol : ∀ n < 64, String.utf8EncodeChar (symbol n) = [symbolByte n] := by
  decide +kernel

/-- The numbers below 64 that some bytes are written as. -/
def numbers : List UInt8 → List Nat
  | [] => []
  | [a] => [a.toNat / 4, a.toNat % 4 * 16]
  | [a, b] => [a.toNat / 4, a.toNat % 4 * 16 + b.toNat / 16, b.toNat % 16 * 4]
  | a :: b :: c :: rest =>
    a.toNat / 4 :: (a.toNat % 4 * 16 + b.toNat / 16) :: (b.toNat % 16 * 4 + c.toNat / 64)
      :: c.toNat % 64 :: numbers rest

theorem encode_eq_map (bytes : List UInt8) : encode bytes = (numbers bytes).map symbol := by
  induction bytes using numbers.induct with
  | case1 => rfl
  | case2 a => rfl
  | case3 a b => rfl
  | case4 a b c rest ih =>
    rw [encode, numbers, ih]
    rfl

theorem numbers_lt (bytes : List UInt8) : ∀ n ∈ numbers bytes, n < 64 := by
  induction bytes using numbers.induct with
  | case1 => exact fun _ hn => nomatch hn
  | case2 a =>
    have ha := a.toNat_lt
    simp only [numbers, List.forall_mem_cons]
    exact ⟨by omega, by omega, fun _ hn => nomatch hn⟩
  | case3 a b =>
    have ha := a.toNat_lt
    have hb := b.toNat_lt
    simp only [numbers, List.forall_mem_cons]
    exact ⟨by omega, by omega, by omega, fun _ hn => nomatch hn⟩
  | case4 a b c rest ih =>
    have ha := a.toNat_lt
    have hb := b.toNat_lt
    have hc := c.toNat_lt
    simp only [numbers, List.forall_mem_cons]
    exact ⟨by omega, by omega, by omega, by omega, ih⟩

/-- Every character that is written is a letter, a digit, `-` or `_`, and so no blank. -/
theorem chars_of_mem_encode {bytes : List UInt8} {c : Char} (h : c ∈ encode bytes) :
    isAddressChar c = true ∧ Text.isBlank c = false := by
  rw [encode_eq_map] at h
  obtain ⟨n, hn, rfl⟩ := List.mem_map.mp h
  exact symbol_isAddressChar n (numbers_lt bytes n hn)

theorem utf8_encode_map {ns : List Nat} (h : ∀ n ∈ ns, n < 64) :
    Utf8.encode (ns.map symbol) = ns.map symbolByte := by
  induction ns with
  | nil => rfl
  | cons n ns ih =>
    obtain ⟨hn, hns⟩ := List.forall_mem_cons.mp h
    rw [List.map_cons, Utf8.encode, List.flatMap_cons, utf8EncodeChar_symbol n hn]
    exact congrArg (symbolByte n :: ·) (ih hns)

/-- What is written has one byte for each number. -/
theorem utf8_encode (bytes : List UInt8) :
    Utf8.encode (encode bytes) = (numbers bytes).map symbolByte := by
  rw [encode_eq_map, utf8_encode_map (numbers_lt bytes)]

/-! ## Groups -/

theorem lastGroup_map (start place : Nat) {ns : List Nat} (h : ∀ n ∈ ns, n < 64) :
    lastGroup start place none (ns.map symbolByte) = .ok ns := by
  induction ns generalizing place with
  | nil => rfl
  | cons n ns ih =>
    obtain ⟨hn, hns⟩ := List.forall_mem_cons.mp h
    have hsextet : sextet? (symbolByte n) = some n := sextet?_symbol n hn
    rw [List.map_cons, lastGroup, if_neg (symbolByte_ne_padding n hn), hsextet]
    simp only [ih (place + 1) hns]
    rfl

/-- A last group is read as the bytes of its numbers, if the bits that are too many are zero. -/
theorem decodeLast_map (start : Nat) {ns : List Nat} (h : ∀ n ∈ ns, n < 64) (hlen : 2 ≤ ns.length)
    (hunused : (lastBytes ns).2 = 0) :
    decodeLast start (ns.map symbolByte) = .ok (lastBytes ns).1 := by
  have hne : ns.map symbolByte ≠ [] := by
    intro hnil
    rw [List.map_eq_nil_iff.mp hnil] at hlen
    exact absurd hlen (by decide)
  obtain ⟨b, hb⟩ : ∃ b, (ns.map symbolByte).getLast? = some b :=
    ⟨_, List.getLast?_eq_some_getLast hne⟩
  unfold decodeLast
  rw [lastGroup_map start 0 h, hb]
  simp only [bind, Except.bind, Nat.not_lt.mpr hlen, List.length_map, Nat.lt_irrefl, if_false,
    hunused, if_true]

theorem ofNat_toNat_eq {n : Nat} {a : UInt8} (h : n = a.toNat) : UInt8.ofNat n = a := by
  rw [h, UInt8.ofNat_toNat]

/-- A last byte alone. -/
theorem lastBytes_one (a : UInt8) : lastBytes (numbers [a]) = ([a], 0) := by
  have ha := a.toNat_lt
  show ([UInt8.ofNat (a.toNat / 4 * 4 + a.toNat % 4 * 16 / 16)], a.toNat % 4 * 16 % 16) = _
  rw [ofNat_toNat_eq (a := a) (by omega), Nat.mul_mod_left]

theorem lastBytes_two (a b : UInt8) : lastBytes (numbers [a, b]) = ([a, b], 0) := by
  have ha := a.toNat_lt
  have hb := b.toNat_lt
  simp only [numbers, lastBytes]
  rw [ofNat_toNat_eq (a := a) (by omega), ofNat_toNat_eq (a := b) (by omega), Nat.mul_mod_left]

theorem lastBytes_three (a b c : UInt8) : lastBytes (numbers [a, b, c]) = ([a, b, c], 0) := by
  have ha := a.toNat_lt
  have hb := b.toNat_lt
  have hc := c.toNat_lt
  simp only [numbers, lastBytes]
  rw [ofNat_toNat_eq (a := a) (by omega), ofNat_toNat_eq (a := b) (by omega),
    ofNat_toNat_eq (a := c) (by omega)]

theorem decodeGroups_last (start : Nat) (bytes : List UInt8) (hlen : 2 ≤ (numbers bytes).length)
    (hlast : lastBytes (numbers bytes) = (bytes, 0)) :
    decodeLast start ((numbers bytes).map symbolByte) = .ok bytes := by
  rw [decodeLast_map start (numbers_lt bytes) hlen (by rw [hlast]), hlast]

theorem numbers_ne_nil {bytes : List UInt8} (h : bytes ≠ []) : numbers bytes ≠ [] := by
  intro hnil
  induction bytes using numbers.induct with
  | case1 => exact h rfl
  | case2 a => cases hnil
  | case3 a b => cases hnil
  | case4 a b c rest ih => cases hnil

/-- A group that others follow is read as three bytes. -/
theorem decodeGroups_group (start : Nat) {i j k l : Nat} (hi : i < 64) (hj : j < 64) (hk : k < 64)
    (hl : l < 64) {b : UInt8} {rest bytes : List UInt8}
    (h : decodeGroups (start + 4) (b :: rest) = .ok bytes) :
    decodeGroups start (symbolByte i :: symbolByte j :: symbolByte k :: symbolByte l :: b :: rest) =
      .ok (UInt8.ofNat (i * 4 + j / 16) :: UInt8.ofNat (j % 16 * 16 + k / 4)
        :: UInt8.ofNat (k % 4 * 64 + l) :: bytes) := by
  have hsextet {n : Nat} (hn : n < 64) : sextet? (symbolByte n) = some n := sextet?_symbol n hn
  rw [decodeGroups, hsextet hi, hsextet hj, hsextet hk, hsextet hl, h]
  rfl

/-- Whatever their offset, the groups of some bytes are read as these bytes. -/
theorem decodeGroups_map (start : Nat) {bytes : List UInt8} (h : bytes ≠ []) :
    decodeGroups start ((numbers bytes).map symbolByte) = .ok bytes := by
  induction bytes using numbers.induct generalizing start with
  | case1 => exact absurd rfl h
  | case2 a => exact decodeGroups_last start [a] (Nat.le_refl 2) (lastBytes_one a)
  | case3 a b => exact decodeGroups_last start [a, b] (Nat.le_succ 2) (lastBytes_two a b)
  | case4 a b c rest ih =>
    by_cases hrest : rest = []
    · subst hrest
      exact decodeGroups_last start [a, b, c] (Nat.le_add_right 2 2)
        (lastBytes_three a b c)
    · have ha := a.toNat_lt
      have hb := b.toNat_lt
      have hc := c.toNat_lt
      obtain ⟨n, ns, hns⟩ := List.exists_cons_of_ne_nil (numbers_ne_nil hrest)
      have hbytes := ih (start + 4) hrest
      rw [hns, List.map_cons] at hbytes
      simp only [numbers, hns, List.map_cons]
      rw [decodeGroups_group start (by omega) (by omega) (by omega) (by omega) hbytes,
        ofNat_toNat_eq (a := a) (by omega), ofNat_toNat_eq (a := b) (by omega),
        ofNat_toNat_eq (a := c) (by omega)]

/-! ## Whole texts -/

/-- No byte that is written is foreign to the alphabet. -/
theorem strayEnd?_map {ns : List Nat} (h : ∀ n ∈ ns, n < 64) :
    strayEnd? (ns.map symbolByte) = none := by
  unfold strayEnd?
  split
  · rw [Option.filter_eq_none_iff]
    intro b hb
    obtain ⟨n, hn, rfl⟩ := List.mem_map.mp (List.mem_of_getLast? hb)
    have hsextet : sextet? (symbolByte n) = some n := sextet?_symbol n (h n hn)
    rw [hsextet]
    simp
  · rfl

/-- What is written is read back. -/
theorem decode_encode (bytes : List UInt8) : decode (Utf8.encode (encode bytes)) = .ok bytes := by
  rw [utf8_encode, decode, strayEnd?_map (numbers_lt bytes)]
  by_cases h : bytes = []
  · subst h
    rfl
  · have hne : ((numbers bytes).map symbolByte).isEmpty = false := by
      simpa using numbers_ne_nil h
    simp only [hne]
    exact decodeGroups_map 0 h

end RowQuery.Base64
