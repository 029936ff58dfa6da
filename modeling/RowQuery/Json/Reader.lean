import RowQuery.Json.Basic
import RowQuery.Utf8

/-!
# Reading JSON

A document is read from decoded text in which a gap stands for a byte that belongs to no character.
The grammar is that of RFC 8259: nothing may follow the document but blanks, numbers have no leading
zeros, and control characters in strings are escaped. A gap may stand inside a string, which then
denotes no text; so does a string with half of a surrogate pair.

Each reader takes its construct from the front of the text and returns the rest. Constructs nest, and
reading is limited by a number of steps that every text has fewer constructs than.
-/

namespace RowQuery.Json

open Utf8 (Symbols)

/-- Whether a symbol is a blank between constructs. -/
def isBlank (c : Option Char) : Bool :=
  c = some ' ' || c = some '\n' || c = some '\t' || c = some '\r'

def skipBlanks (input : Symbols) : Symbols := input.dropWhile isBlank

/-- A piece of a string: a character, a 16-bit unit given by number, or a gap. -/
inductive Piece where
  | char (c : Char)
  | unit (n : Nat)
  | gap

/-- The value of a hexadecimal digit in either case. -/
def hexValue? : Option Char → Option Nat
  | some c =>
    let n := c.toNat
    if 48 ≤ n ∧ n ≤ 57 then some (n - 48)
    else if 97 ≤ n ∧ n ≤ 102 then some (n - 87)
    else if 65 ≤ n ∧ n ≤ 70 then some (n - 55)
    else none
  | none => none

def hexUnit? (a b c d : Option Char) : Option Nat := do
  some (((← hexValue? a) * 16 + (← hexValue? b)) * 256 + (← hexValue? c) * 16 + (← hexValue? d))

/-- The character of an escape of one letter. -/
def shortEscape? (c : Char) : Option Char :=
  if c = '"' ∨ c = '\\' ∨ c = '/' then some c
  else if c = 'b' then some '\x08'
  else if c = 'f' then some '\x0c'
  else if c = 'n' then some '\n'
  else if c = 'r' then some '\r'
  else if c = 't' then some '\t'
  else none

/-- The pieces of a string up to its closing quotation mark. -/
def readPieces : Symbols → Option (List Piece × Symbols)
  | [] => none
  | none :: rest => (readPieces rest).map fun (ps, rest) => (.gap :: ps, rest)
  | some c :: rest =>
    if c = '"' then some ([], rest)
    else if c = '\\' then
      match rest with
      | some 'u' :: a :: b :: c :: d :: rest => do
        let n ← hexUnit? a b c d
        let (ps, rest) ← readPieces rest
        some (.unit n :: ps, rest)
      | some e :: rest => do
        let c ← shortEscape? e
        let (ps, rest) ← readPieces rest
        some (.char c :: ps, rest)
      | _ => none
    else if c.toNat < 32 then none
    else (readPieces rest).map fun (ps, rest) => (.char c :: ps, rest)

/-- Whether a unit is the first half of a surrogate pair. -/
def isLeading (n : Nat) : Bool := 0xD800 ≤ n && n < 0xDC00

/-- Whether a unit is the second half of a surrogate pair. -/
def isTrailing (n : Nat) : Bool := 0xDC00 ≤ n && n < 0xE000

/-- The text that pieces denote: halves of surrogate pairs must meet, and gaps denote nothing. -/
def joinPieces : List Piece → Option (List Char)
  | [] => some []
  | .gap :: _ => none
  | .char c :: rest => (joinPieces rest).map (c :: ·)
  | .unit m :: rest =>
    if isLeading m then
      match rest with
      | .unit n :: rest =>
        if isTrailing n then
          (joinPieces rest).map (Char.ofNat (0x10000 + (m - 0xD800) * 0x400 + (n - 0xDC00)) :: ·)
        else none
      | _ => none
    else if isTrailing m then none
    else (joinPieces rest).map (Char.ofNat m :: ·)

/-- A string after its opening quotation mark; the text is absent if the string denotes none. -/
def readString (input : Symbols) : Option (Option String × Symbols) :=
  (readPieces input).map fun (ps, rest) => ((joinPieces ps).map String.ofList, rest)

def readDigits : Symbols → List Char × Symbols
  | some c :: rest =>
    if c.isDigit then
      let (ds, rest) := readDigits rest
      (c :: ds, rest)
    else ([], some c :: rest)
  | rest => ([], rest)

/-- The digits after a point, if there is one: at least one digit. -/
def readFraction : Symbols → Option (List Char × Symbols)
  | some '.' :: rest =>
    let (ds, rest) := readDigits rest
    if ds.isEmpty then none else some (ds, rest)
  | rest => some ([], rest)

/-- The digits of an exponent after its sign. -/
def readExponentDigits (negative : Bool) (input : Symbols) : Option (Option Int × Symbols) :=
  let (ds, rest) := readDigits input
  if ds.isEmpty then none
  else some (some (if negative then -(Text.ofDigits ds : Int) else Text.ofDigits ds), rest)

/-- An exponent, if there is one: at least one digit after a sign that may be left out. -/
def readExponent : Symbols → Option (Option Int × Symbols)
  | some c :: rest =>
    if c = 'e' ∨ c = 'E' then
      match rest with
      | some '-' :: rest => readExponentDigits true rest
      | some '+' :: rest => readExponentDigits false rest
      | rest => readExponentDigits false rest
    else some (none, some c :: rest)
  | rest => some (none, rest)

/-- The digits in front of the point: a zero alone, or digits that do not start with one. -/
def readWhole : Symbols → Option (List Char × Symbols)
  | some '0' :: rest => some (['0'], rest)
  | rest =>
    let (ds, rest) := readDigits rest
    if ds.isEmpty then none else some (ds, rest)

def readUnsigned (negative : Bool) (input : Symbols) : Option (Numeral × Symbols) := do
  let (whole, rest) ← readWhole input
  let (fraction, rest) ← readFraction rest
  let (exponent, rest) ← readExponent rest
  some (⟨negative, whole, fraction, exponent⟩, rest)

def readNumber : Symbols → Option (Numeral × Symbols)
  | some '-' :: rest => readUnsigned true rest
  | rest => readUnsigned false rest

/-- The object with the given members; a member whose name denotes no text spoils the object. -/
def objectOf (members : List (Option String × Json)) : Json :=
  match members.mapM fun (name, j) => name.map (·, j) with
  | some members => .object members
  | none => .garbled

mutual

def readValue : Nat → Symbols → Option (Json × Symbols)
  | 0, _ => none
  | steps + 1, input =>
    match skipBlanks input with
    | some 'n' :: some 'u' :: some 'l' :: some 'l' :: rest => some (.null, rest)
    | some 't' :: some 'r' :: some 'u' :: some 'e' :: rest => some (.bool true, rest)
    | some 'f' :: some 'a' :: some 'l' :: some 's' :: some 'e' :: rest => some (.bool false, rest)
    | some '"' :: rest =>
      (readString rest).map fun (s, rest) =>
        match s with
        | some s => (.string s, rest)
        | none => (.garbled, rest)
    | some '[' :: rest =>
      match skipBlanks rest with
      | some ']' :: rest => some (.array [], rest)
      | rest => (readItems steps rest).map fun (js, rest) => (.array js, rest)
    | some '\x7b' :: rest =>
      match skipBlanks rest with
      | some '\x7d' :: rest => some (.object [], rest)
      | rest => (readMembers steps rest).map fun (ms, rest) => (objectOf ms, rest)
    | rest => (readNumber rest).map fun (n, rest) => (.number n, rest)

/-- At least one element of an array, and the closing bracket. -/
def readItems : Nat → Symbols → Option (List Json × Symbols)
  | 0, _ => none
  | steps + 1, input => do
    let (j, rest) ← readValue steps input
    match skipBlanks rest with
    | some ']' :: rest => some ([j], rest)
    | some ',' :: rest => do
      let (js, rest) ← readItems steps rest
      some (j :: js, rest)
    | _ => none

/-- At least one member of an object, and the closing brace. -/
def readMembers : Nat → Symbols → Option (List (Option String × Json) × Symbols)
  | 0, _ => none
  | steps + 1, input =>
    match skipBlanks input with
    | some '"' :: rest => do
      let (name, rest) ← readString rest
      match skipBlanks rest with
      | some ':' :: rest => do
        let (j, rest) ← readValue steps rest
        match skipBlanks rest with
        | some '\x7d' :: rest => some ([(name, j)], rest)
        | some ',' :: rest => do
          let (ms, rest) ← readMembers steps rest
          some ((name, j) :: ms, rest)
        | _ => none
      | _ => none
    | _ => none

end

def ofSymbols? (input : Symbols) : Option Json :=
  match readValue (2 * input.length + 2) input with
  | some (j, rest) => if (skipBlanks rest).isEmpty then some j else none
  | none => none

def ofText? (s : String) : Option Json := ofSymbols? (s.toList.map some)

def ofBytes? (bytes : List UInt8) : Option Json := ofSymbols? (Utf8.decode bytes)

end RowQuery.Json
