import RowQuery.Text.Digits
import RowQuery.Utf8

/-!
# Base64 for addresses

Bytes are written in the URL-safe alphabet `A` to `Z`, `a` to `z`, `0` to `9`, `-` and `_`, six bits
to a symbol, without padding. Three bytes make four symbols, and one or two bytes at the end make two
or three symbols whose unused low bits are zero.

Reading is strict. Faults are looked for in this order: a lone symbol at the end that is neither in
the alphabet nor padding; a byte outside the alphabet before the last group; such a byte in the last
group; a lone symbol at the end; padding; and unused bits that are not zero.

Results: `sextet?_symbol`, every symbol stands for its number; `sextet?_lt`, no byte stands for a
number above 63.
-/

namespace RowQuery.Base64

/-- The symbol of a number below 64. -/
def symbol (n : Nat) : Char :=
  if n < 26 then Char.ofNat (65 + n)
  else if n < 52 then Char.ofNat (71 + n)
  else if n < 62 then Char.ofNat (n - 4)
  else if n = 62 then '-'
  else '_'

/-- The number that a byte stands for. -/
def sextet? (b : UInt8) : Option Nat :=
  let n := b.toNat
  if 65 ≤ n ∧ n ≤ 90 then some (n - 65)
  else if 97 ≤ n ∧ n ≤ 122 then some (n - 71)
  else if 48 ≤ n ∧ n ≤ 57 then some (n + 4)
  else if n = 45 then some 62
  else if n = 95 then some 63
  else none

def encode : List UInt8 → List Char
  | [] => []
  | [a] => [symbol (a.toNat / 4), symbol (a.toNat % 4 * 16)]
  | [a, b] =>
    [symbol (a.toNat / 4), symbol (a.toNat % 4 * 16 + b.toNat / 16), symbol (b.toNat % 16 * 4)]
  | a :: b :: c :: rest =>
    symbol (a.toNat / 4) :: symbol (a.toNat % 4 * 16 + b.toNat / 16)
      :: symbol (b.toNat % 16 * 4 + c.toNat / 64) :: symbol (c.toNat % 64) :: encode rest

/-- Why some bytes are no base64. -/
inductive Fault where
  /-- A byte that may not stand where it stands. -/
  | symbol (byte : UInt8) (offset : Nat)
  /-- A symbol at the end that is too few. -/
  | length (symbols : Nat)
  /-- A last symbol whose unused bits are not zero. -/
  | lastSymbol (byte : UInt8) (offset : Nat)
  /-- Padding where none is written. -/
  | padding
deriving DecidableEq

/-- The byte `=` that other variants pad with. -/
def paddingByte : UInt8 := 61

/-- The first byte that stands for no number, with its offset. -/
def firstForeign? : Nat → List UInt8 → Option (UInt8 × Nat)
  | _, [] => none
  | offset, b :: rest =>
    match sextet? b with
    | some _ => firstForeign? (offset + 1) rest
    | none => some (b, offset)

/-- The numbers of the last group, before any padding, or the first byte at fault in it. Padding may
not stand in the first two places, and nothing else may follow it. `padded` is the offset of the
first padding met so far. -/
def lastGroup (start : Nat) : Nat → Option Nat → List UInt8 → Except Fault (List Nat)
  | _, _, [] => .ok []
  | place, padded, b :: rest =>
    if b = paddingByte then
      if place < 2 then .error (.symbol b (start + place))
      else lastGroup start (place + 1) (some (padded.getD (start + place))) rest
    else
      match padded with
      | some offset => .error (.symbol paddingByte offset)
      | none =>
        match sextet? b with
        | none => .error (.symbol b (start + place))
        | some n => (lastGroup start (place + 1) none rest).map (n :: ·)

/-- The bytes of a last group of numbers, and its last number's unused bits. -/
def lastBytes : List Nat → List UInt8 × Nat
  | [a, b] => ([UInt8.ofNat (a * 4 + b / 16)], b % 16)
  | [a, b, c] => ([UInt8.ofNat (a * 4 + b / 16), UInt8.ofNat (b % 16 * 16 + c / 4)], c % 4)
  | [a, b, c, d] =>
    ([UInt8.ofNat (a * 4 + b / 16), UInt8.ofNat (b % 16 * 16 + c / 4), UInt8.ofNat (c % 4 * 64 + d)],
      0)
  | _ => ([], 0)

/-- The bytes of the last group, which starts at `start` and holds one to four bytes. -/
def decodeLast (start : Nat) (group : List UInt8) : Except Fault (List UInt8) := do
  let numbers ← lastGroup start 0 none group
  if numbers.length < 2 then throw (.length (start + numbers.length))
  if numbers.length < group.length then throw .padding
  let (bytes, unused) := lastBytes numbers
  match group.getLast? with
  | some b => if unused = 0 then .ok bytes else throw (.lastSymbol b (start + group.length - 1))
  | none => .ok bytes

/-- The bytes of the groups from an offset on; all groups but the last one hold four symbols. -/
def decodeGroups (start : Nat) : List UInt8 → Except Fault (List UInt8)
  | a :: b :: c :: d :: e :: rest =>
    match sextet? a, sextet? b, sextet? c, sextet? d with
    | some i, some j, some k, some l => do
      let bytes ← decodeGroups (start + 4) (e :: rest)
      .ok (UInt8.ofNat (i * 4 + j / 16) :: UInt8.ofNat (j % 16 * 16 + k / 4)
        :: UInt8.ofNat (k % 4 * 64 + l) :: bytes)
    | _, _, _, _ =>
      match firstForeign? start [a, b, c, d] with
      | some (byte, offset) => throw (.symbol byte offset)
      | none => throw .padding
  | group => decodeLast start group

/-- Whether a single byte left over at the end is foreign to the alphabet and to padding. -/
def strayEnd? (bytes : List UInt8) : Option UInt8 :=
  if bytes.length % 4 = 1 then
    bytes.getLast?.filter fun b => b != paddingByte && (sextet? b).isNone
  else none

/-- The bytes that a text in base64 stands for. -/
def decode (bytes : List UInt8) : Except Fault (List UInt8) :=
  match strayEnd? bytes with
  | some b => .error (.symbol b (bytes.length - 1))
  | none => if bytes.isEmpty then .ok [] else decodeGroups 0 bytes

def shown (n : Nat) : String := String.ofList (Text.digits n)

def Fault.message : Fault → String
  | .symbol byte offset =>
    "Invalid symbol " ++ shown byte.toNat ++ ", offset " ++ shown offset ++ "."
  | .length symbols => "Invalid input length: " ++ shown symbols
  | .lastSymbol byte offset =>
    "Invalid last symbol " ++ shown byte.toNat ++ ", offset " ++ shown offset ++ "."
  | .padding => "Invalid padding"

theorem sextet?_symbol : ∀ n < 64, sextet? (UInt8.ofNat (symbol n).toNat) = some n := by
  decide +kernel

theorem sextet?_lt {b : UInt8} {n : Nat} (h : sextet? b = some n) : n < 64 := by
  simp only [sextet?] at h
  repeat' split at h
  all_goals simp only [Option.some.injEq, reduceCtorEq] at h
  all_goals omega

end RowQuery.Base64
