/-!
# Reading UTF-8 bytes without failing

Bytes that should be UTF-8 but need not be are read one character at a time. A well-formed
sequence gives its character. A byte that cannot start a sequence, or that starts one which is
cut short, overlong, a surrogate or beyond U+10FFFF, gives the replacement character U+FFFD and
is the only byte taken, so reading goes on at the next byte.
-/

namespace CrystalLattice.Utf8

def replacement : Char := Char.ofNat 0xFFFD

def within (lo hi b : UInt8) : Bool := lo ≤ b && b ≤ hi

def continues (b : UInt8) : Bool := within 0x80 0xBF b

/-- The range a second byte must lie in after a leading byte of a sequence of three or four
bytes; the ranges rule out overlong forms, surrogates and code points past U+10FFFF. -/
def secondRange (lead : UInt8) : UInt8 × UInt8 :=
  if lead = 0xE0 then (0xA0, 0xBF)
  else if lead = 0xED then (0x80, 0x9F)
  else if lead = 0xF0 then (0x90, 0xBF)
  else if lead = 0xF4 then (0x80, 0x8F)
  else (0x80, 0xBF)

def low (b : UInt8) : Nat := b.toNat % 64

/-- The character of a sequence of two bytes, if it is well formed. -/
def pair (b0 b1 : UInt8) : Option Char :=
  if within 0xC2 0xDF b0 && continues b1 then some (Char.ofNat ((b0.toNat % 32) * 64 + low b1))
  else none

def triple (b0 b1 b2 : UInt8) : Option Char :=
  let (lo, hi) := secondRange b0
  if within 0xE0 0xEF b0 && within lo hi b1 && continues b2 then
    some (Char.ofNat ((b0.toNat % 16) * 4096 + low b1 * 64 + low b2))
  else none

def quad (b0 b1 b2 b3 : UInt8) : Option Char :=
  let (lo, hi) := secondRange b0
  if within 0xF0 0xF4 b0 && within lo hi b1 && continues b2 && continues b3 then
    some (Char.ofNat ((b0.toNat % 8) * 262144 + low b1 * 4096 + low b2 * 64 + low b3))
  else none

/-- The characters of some bytes, each byte that is not part of a well-formed sequence read
as the replacement character. A sequence is tried at its own length, which its first byte
fixes, so a byte that fails is never read again as part of a longer one. -/
def decode : List UInt8 → List Char
  | [] => []
  | [b0] => [if b0 < 0x80 then Char.ofNat b0.toNat else replacement]
  | [b0, b1] =>
    if b0 < 0x80 then Char.ofNat b0.toNat :: decode [b1]
    else match pair b0 b1 with
      | some c => [c]
      | none => replacement :: decode [b1]
  | [b0, b1, b2] =>
    if b0 < 0x80 then Char.ofNat b0.toNat :: decode [b1, b2]
    else match pair b0 b1, triple b0 b1 b2 with
      | some c, _ => c :: decode [b2]
      | none, some c => [c]
      | none, none => replacement :: decode [b1, b2]
  | b0 :: b1 :: b2 :: b3 :: more =>
    if b0 < 0x80 then Char.ofNat b0.toNat :: decode (b1 :: b2 :: b3 :: more)
    else match pair b0 b1, triple b0 b1 b2, quad b0 b1 b2 b3 with
      | some c, _, _ => c :: decode (b2 :: b3 :: more)
      | none, some c, _ => c :: decode (b3 :: more)
      | none, none, some c => c :: decode more
      | none, none, none => replacement :: decode (b1 :: b2 :: b3 :: more)

def text (bytes : List UInt8) : String := String.ofList (decode bytes)

end CrystalLattice.Utf8
