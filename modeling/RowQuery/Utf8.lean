/-!
# UTF-8

Text is encoded character by character. Decoding works on any bytes: a byte that belongs to no
well-formed character is kept as a gap, and decoding goes on with the next byte.

Results: `decode_encode`, encoded text is decoded without a gap.
-/

namespace RowQuery.Utf8

/-- Decoded text; `none` stands for a byte that belongs to no character. -/
abbrev Symbols := List (Option Char)

def encode (cs : List Char) : List UInt8 := cs.flatMap String.utf8EncodeChar

def isTail (b : UInt8) : Bool := 128 ≤ b.toNat && b.toNat < 192

/-- The six bits of a byte that continues a character. -/
def tailBits (b : UInt8) : Nat := b.toNat - 128

/-- The character with the given code, which must need the number of bytes it was written in. -/
def charOf? (least code : Nat) : Option Char :=
  if h : code.isValidChar then if least ≤ code then some (Char.ofNatAux code h) else none else none

/-- The character of a first byte that asks for one more. -/
def two? (a : UInt8) : List UInt8 → Option (Char × Nat)
  | b :: _ =>
    if isTail b then (charOf? 128 ((a.toNat - 192) * 64 + tailBits b)).map (·, 1) else none
  | [] => none

/-- The character of a first byte that asks for two more. -/
def three? (a : UInt8) : List UInt8 → Option (Char × Nat)
  | b :: c :: _ =>
    if isTail b && isTail c then
      (charOf? 2048 ((a.toNat - 224) * 4096 + tailBits b * 64 + tailBits c)).map (·, 2)
    else none
  | _ => none

/-- The character of a first byte that asks for three more. -/
def four? (a : UInt8) : List UInt8 → Option (Char × Nat)
  | b :: c :: d :: _ =>
    if isTail b && isTail c && isTail d then
      (charOf? 65536 ((a.toNat - 240) * 262144 + tailBits b * 4096 + tailBits c * 64
        + tailBits d)).map (·, 3)
    else none
  | _ => none

/-- The character that starts with the byte `a`, and the number of bytes it takes after it. -/
def first? (a : UInt8) (rest : List UInt8) : Option (Char × Nat) :=
  if a.toNat < 128 then (charOf? 0 a.toNat).map (·, 0)
  else if a.toNat < 192 then none
  else if a.toNat < 224 then two? a rest
  else if a.toNat < 240 then three? a rest
  else if a.toNat < 248 then four? a rest
  else none

/-- Decodes bytes after the number of bytes that the last character still covers. -/
def decodeFrom : Nat → List UInt8 → Symbols
  | _, [] => []
  | covered + 1, _ :: rest => decodeFrom covered rest
  | 0, b :: rest =>
    match first? b rest with
    | some (c, more) => some c :: decodeFrom more rest
    | none => none :: decodeFrom 0 rest

def decode (bytes : List UInt8) : Symbols := decodeFrom 0 bytes

theorem charOf?_toNat {least code : Nat} {c : Char} (hc : code = c.toNat) (h : least ≤ code) :
    charOf? least code = some c := by
  subst hc
  have hv : c.toNat.isValidChar := c.valid
  unfold charOf?
  rw [dif_pos hv, if_pos h]
  rfl

theorem toNat_byte {n : Nat} (h : n < 256) : (UInt8.ofNat n).toNat = n := by
  rw [UInt8.toNat_ofNat']
  omega

theorem isTail_byte {n : Nat} (h : n < 64) : isTail (UInt8.ofNat (n + 128)) = true := by
  have hn : (UInt8.ofNat (n + 128)).toNat = n + 128 := toNat_byte (by omega)
  rw [isTail, hn, Bool.and_eq_true]
  exact ⟨decide_eq_true (Nat.le_add_left _ _), decide_eq_true (Nat.add_lt_add_right h _)⟩

theorem tailBits_byte {n : Nat} (h : n < 64) : tailBits (UInt8.ofNat (n + 128)) = n := by
  have hn : (UInt8.ofNat (n + 128)).toNat = n + 128 := toNat_byte (by omega)
  unfold tailBits
  omega

/-- Decoding takes an encoded character off the front of any bytes. -/
theorem decodeFrom_char_append (c : Char) (rest : List UInt8) :
    decodeFrom 0 (String.utf8EncodeChar c ++ rest) = some c :: decodeFrom 0 rest := by
  have hv : c.val.toNat < 0x110000 := by
    rcases c.valid with h | h
    · exact Nat.lt_trans h (by decide)
    · exact h.2
  have hc : c.val.toNat = c.toNat := rfl
  fun_cases String.utf8EncodeChar c with
  | case1 v h =>
    have hn : (UInt8.ofNat v).toNat = v := toNat_byte (by omega)
    rw [List.singleton_append, decodeFrom, first?, hn, if_pos (by omega),
      charOf?_toNat hc (Nat.zero_le _)]
    rfl
  | case2 v h h₂ =>
    have hn : (UInt8.ofNat (v / 64 % 32 + 192)).toNat = v / 64 % 32 + 192 := toNat_byte (by omega)
    have hm : v % 64 < 64 := Nat.mod_lt _ (by decide)
    rw [List.cons_append, decodeFrom, first?, hn, if_neg (by omega), if_neg (by omega),
      if_pos (by omega), List.cons_append, two?, isTail_byte hm, tailBits_byte hm, if_pos rfl, hn,
      charOf?_toNat (c := c) (by omega) (by omega)]
    rfl
  | case3 v h h₂ h₄ =>
    have hn : (UInt8.ofNat (v / 4096 % 16 + 224)).toNat = v / 4096 % 16 + 224 :=
      toNat_byte (by omega)
    have hm : v % 64 < 64 := Nat.mod_lt _ (by decide)
    have hk : v / 64 % 64 < 64 := Nat.mod_lt _ (by decide)
    rw [List.cons_append, decodeFrom, first?, hn, if_neg (by omega), if_neg (by omega),
      if_neg (by omega), if_pos (by omega), List.cons_append, List.cons_append, three?,
      isTail_byte hm, tailBits_byte hm, isTail_byte hk, tailBits_byte hk, hn]
    simp only [Bool.and_self, if_true]
    rw [charOf?_toNat (c := c) (by omega) (by omega)]
    rfl
  | case4 v h h₂ h₄ =>
    have hn : (UInt8.ofNat (v / 262144 % 8 + 240)).toNat = v / 262144 % 8 + 240 :=
      toNat_byte (by omega)
    have hm : v % 64 < 64 := Nat.mod_lt _ (by decide)
    have hk : v / 64 % 64 < 64 := Nat.mod_lt _ (by decide)
    have hj : v / 4096 % 64 < 64 := Nat.mod_lt _ (by decide)
    rw [List.cons_append, decodeFrom, first?, hn, if_neg (by omega), if_neg (by omega),
      if_neg (by omega), if_neg (by omega), if_pos (by omega), List.cons_append, List.cons_append,
      List.cons_append, four?, isTail_byte hm, tailBits_byte hm, isTail_byte hk, tailBits_byte hk,
      isTail_byte hj, tailBits_byte hj, hn]
    simp only [Bool.and_self, if_true]
    rw [charOf?_toNat (c := c) (by omega) (by omega)]
    rfl

theorem decode_encode (cs : List Char) : decode (encode cs) = cs.map some := by
  induction cs with
  | nil => rfl
  | cons c cs ih =>
    simp only [encode, List.flatMap_cons, decode, decodeFrom_char_append, List.map_cons]
    exact congrArg _ ih

end RowQuery.Utf8
