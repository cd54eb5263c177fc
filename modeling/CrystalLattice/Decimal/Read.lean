import CrystalLattice.Decimal.Shortest

/-!
# Reading numerals

Integers with an optional sign, base prefix and underscores between digits, and floats in
decimal or hexadecimal notation or as `inf`, `infinity` and `nan`. A float is rounded correctly
from all its digits; one beyond the largest finite value is out of range.
-/

namespace CrystalLattice.Decimal

/-- Why a numeral was refused. -/
inductive ReadError where
  | malformed
  | range
  deriving Repr, BEq, DecidableEq

def lowerAscii (c : Char) : Char := if 'A' ≤ c ∧ c ≤ 'Z' then Char.ofNat (c.toNat + 32) else c

def digitValue (c : Char) : Option Nat :=
  let c := lowerAscii c
  if '0' ≤ c ∧ c ≤ '9' then some (c.toNat - 48)
  else if 'a' ≤ c ∧ c ≤ 'z' then some (c.toNat - 87)
  else none

/-- Whether the underscores of a numeral only ever separate two digits; a base prefix counts
as a digit. -/
def underscoresOk (s : List Char) : Bool :=
  let s := match s with
    | c :: r => if c = '+' ∨ c = '-' then r else s
    | [] => []
  let (hex, saw, rest) := match s with
    | '0' :: b :: r =>
      let b := lowerAscii b
      if b = 'b' ∨ b = 'o' ∨ b = 'x' then (b == 'x', '0', r) else (false, '^', s)
    | _ => (false, '^', s)
  let step (st : Option Char) (c : Char) : Option Char :=
    match st with
    | none => none
    | some saw =>
      let lc := lowerAscii c
      if ('0' ≤ c ∧ c ≤ '9') ∨ (hex ∧ 'a' ≤ lc ∧ lc ≤ 'f') then some '0'
      else if c = '_' then (if saw = '0' then some '_' else none)
      else if saw = '_' then none
      else some '!'
  let final := rest.foldl step (some saw)
  match final with
  | some saw => saw ≠ '_'
  | none => false

/-- Read an unsigned integer that must fit in 64 bits. Base `0` takes the base from a prefix
and allows underscores between digits. Overflow is reported as soon as it happens. -/
def readNat (s : List Char) (base : Nat) : Except ReadError Nat := do
  if s.isEmpty then throw .malformed
  let open0 := base = 0
  let (base, digits) : Nat × List Char :=
    if open0 then
      match s with
      | '0' :: b :: c :: r =>
        let b := lowerAscii b
        if b = 'b' then (2, c :: r) else if b = 'o' then (8, c :: r)
        else if b = 'x' then (16, c :: r) else (8, b :: c :: r)
      | '0' :: r => (8, r)
      | _ => (10, s)
    else (base, s)
  let limit := Nat.pow 2 64
  let mut n := 0
  let mut underscores := false
  for c in digits do
    if c = '_' ∧ open0 then
      underscores := true
      continue
    match digitValue c with
    | none => throw .malformed
    | some d =>
      if d ≥ base then throw .malformed
      if n * base + d ≥ limit then throw .range
      n := n * base + d
  if underscores ∧ !underscoresOk s then throw .malformed
  pure n

def readInt (s : List Char) (base : Nat) : Except ReadError Int := do
  if s.isEmpty then throw .malformed
  let (neg, rest) := match s with
    | '+' :: r => (false, r)
    | '-' :: r => (true, r)
    | _ => (false, s)
  let n ← match readNat rest base with
    | .ok n => pure n
    | .error .range => pure (Nat.pow 2 64 - 1)
    | .error .malformed => throw .malformed
  if !neg ∧ n ≥ Nat.pow 2 63 then throw .range
  if neg ∧ n > Nat.pow 2 63 then throw .range
  pure (if neg then -(n : Int) else n)

/-- Read a decimal integer that must fit in 64 bits. Short numerals are read by a plain digit
loop that allows a sign; others go through `readInt` in base ten. -/
def readDecimalInt (s : List Char) : Except ReadError Int :=
  if 0 < s.length ∧ s.length < 19 then
    let (neg, rest) := match s with
      | '+' :: r => (false, r)
      | '-' :: r => (true, r)
      | _ => (false, s)
    if rest.isEmpty then .error .malformed
    else if rest.all fun c => '0' ≤ c ∧ c ≤ '9' then
      let n : Int := rest.foldl (fun n c => n * 10 + (c.toNat - 48 : Nat)) 0
      .ok (if neg then -n else n)
    else .error .malformed
  else readInt s 10

def commonPrefixIgnoreCase (s : List Char) (word : List Char) : Nat :=
  match s, word with
  | c :: s, w :: word => if lowerAscii c = w then commonPrefixIgnoreCase s word + 1 else 0
  | _, _ => 0

/-- The special values `inf`, `infinity` (either with a sign) and `nan`, as a whole text. -/
def readSpecial (s : List Char) : Option Float :=
  let (sign, rest) : Float × List Char := match s with
    | '+' :: r => (1, r)
    | '-' :: r => (-1, r)
    | _ => (1, s)
  let n := commonPrefixIgnoreCase rest "infinity".toList
  if (n = 3 ∧ rest.length = 3) ∨ (n = 8 ∧ rest.length = 8) then some (sign / 0)
  else if s.length = 3 ∧ commonPrefixIgnoreCase s "nan".toList = 3 then some (0 / 0)
  else none

/-- The float nearest to `m × 2 ^ e`, ties to even. -/
def ofBinary (m : Nat) (e : Int) : Float :=
  if m = 0 then 0
  else if e > 2100 then 1 / 0
  else if e < -(2100 + (Nat.log2 m : Int)) then 0
  else if 0 ≤ e then Float.ofScientific (m * Nat.pow 2 e.toNat) false 0
  else Float.ofScientific (m * Nat.pow 5 (-e).toNat) true (-e).toNat

/-- The float nearest to `m × 10 ^ e`, ties to even. -/
def ofDecimal (m : Nat) (e : Int) : Float :=
  if 0 ≤ e then Float.ofScientific m false e.toNat else Float.ofScientific m true (-e).toNat

/-- The parts of a numeral: sign, all significant digits as one number, the exponent that
applies to it, whether it was hexadecimal, and the characters left over. Exponent digits
stop counting past ten thousand, which already puts any value beyond the range. -/
structure Numeral where
  negative : Bool
  mantissa : Nat
  exponent : Int
  hex : Bool
  rest : List Char

/-- Read the longest numeral at the start of a text: sign, optional `0x`, digits with at most
one point, and an exponent (`e` for decimal, `p` for hexadecimal, which requires one). -/
def readNumeral (s : List Char) : Option Numeral := Id.run do
  let (negative, s) := match s with
    | '+' :: r => (false, r)
    | '-' :: r => (true, r)
    | _ => (false, s)
  let (hex, s) := match s with
    | '0' :: x :: c :: r => if lowerAscii x = 'x' then (true, c :: r) else (false, s)
    | _ => (false, s)
  let base := if hex then 16 else 10
  let mut mantissa := 0
  let mut digits := 0
  let mut point : Option Nat := none
  let mut sawDigits := false
  let mut rest := s
  for c in s do
    if c = '_' then
      rest := rest.drop 1
      continue
    if c = '.' then
      if point.isSome then break
      point := some digits
      rest := rest.drop 1
      continue
    match digitValue c with
    | some d =>
      if d < base then
        sawDigits := true
        mantissa := mantissa * base + d
        digits := digits + 1
        rest := rest.drop 1
      else break
    | none => break
  if !sawDigits then return none
  let fracDigits : Int := match point with
    | some p => (digits : Int) - p
    | none => 0
  let scale : Int := if hex then 4 else 1
  let mut exponent : Int := -fracDigits * scale
  match rest with
  | e :: r =>
    if lowerAscii e = (if hex then 'p' else 'e') then
      let (esign, r) : Int × List Char := match r with
        | '+' :: r => (1, r)
        | '-' :: r => (-1, r)
        | _ => (1, r)
      match r with
      | c :: _ =>
        if !('0' ≤ c ∧ c ≤ '9') then return none
      | [] => return none
      let mut v : Nat := 0
      let mut r := r
      for c in r do
        if c = '_' then
          r := r.drop 1
        else if '0' ≤ c ∧ c ≤ '9' then
          if v < 10000 then v := v * 10 + (c.toNat - 48)
          r := r.drop 1
        else break
      exponent := exponent + esign * v
      rest := r
    else if hex then return none
  | [] => if hex then return none
  return some ⟨negative, mantissa, exponent, hex, rest⟩

/-- Read a float from a whole text. -/
def readFloat (s : List Char) : Except ReadError Float :=
  match readSpecial s with
  | some x => .ok x
  | none =>
    match readNumeral s with
    | none => .error .malformed
    | some n =>
      if !n.rest.isEmpty then .error .malformed
      else if s.contains '_' ∧ !underscoresOk s then .error .malformed
      else
        let x := if n.hex then ofBinary n.mantissa n.exponent else ofDecimal n.mantissa n.exponent
        let x := if n.negative then -x else x
        if x.isInf then .error .range else .ok x

end CrystalLattice.Decimal
