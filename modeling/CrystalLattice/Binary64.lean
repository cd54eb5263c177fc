/-!
# Binary64 words

The fields of a binary64 word, and the two integer roundings the lattice kernels need: toward −∞
(`floor`) and to the nearest integer, ties to even (`roundHalfEven`). Both work on the bit pattern,
so they are exact and keep the sign of a zero result.
-/

namespace CrystalLattice.Binary64

def fractionWidth : Nat := 52

/-- The exponent bias: a field value of `bias` means `2 ^ 0`. -/
def bias : Nat := 1023

def word (x : Float) : Nat := x.toBits.toNat

def ofWord (w : Nat) : Float := Float.ofBits w.toUInt64

/-- The sign bit: `1` for a negative sign. -/
def signBit (w : Nat) : Nat := w / Nat.pow 2 63 % 2

/-- The biased exponent field, `0` for zeros and subnormals, `2047` for infinities and NaNs. -/
def exponentField (w : Nat) : Nat := w / Nat.pow 2 fractionWidth % Nat.pow 2 11

def fractionField (w : Nat) : Nat := w % Nat.pow 2 fractionWidth

def signedZero (w : Nat) : Nat := signBit w * Nat.pow 2 63

def signedOne (w : Nat) : Nat := signedZero w + bias * Nat.pow 2 fractionWidth

/-- Rounding to the nearest integer, ties to even, on words. With unbiased exponent `k < 52` the
low `52 - k` fraction bits are the fractional part: adding just under a half (a full half when the
integer part is odd) carries exactly when the value rounds up, and clearing them truncates. -/
def roundHalfEvenWord (w : Nat) : Nat :=
  let e := exponentField w
  if bias ≤ e then
    let k := e - bias
    if k < fractionWidth then
      let parity := w / Nat.pow 2 (fractionWidth - k) % 2
      let w' := w + (Nat.pow 2 (fractionWidth - 1) - 1 + parity) / Nat.pow 2 k
      w' - w' % Nat.pow 2 (fractionWidth - k)
    else w
  else if e = bias - 1 ∧ fractionField w ≠ 0 then signedOne w
  else signedZero w

/-- Rounding toward zero on words: the fractional bits are cleared, and a magnitude below one
becomes a zero of the same sign. -/
def truncWord (w : Nat) : Nat :=
  let e := exponentField w
  if e < bias then signedZero w
  else
    let k := e - bias
    if k < fractionWidth then w - w % Nat.pow 2 (fractionWidth - k) else w

/-- The nearest integer to `x`, ties to even, with the sign of `x` kept on a zero result. -/
def roundHalfEven (x : Float) : Float := ofWord (roundHalfEvenWord (word x))

/-- The greatest integer not above `x`. Truncation already gives it unless `x` is negative
with a fractional part, where one more is subtracted (exactly, since such an `x` lies below
`2 ^ 52` in magnitude). Zeros, integers, infinities and NaNs come back unchanged. -/
def floor (x : Float) : Float :=
  let w := word x
  let t := truncWord w
  if signBit w = 1 ∧ t ≠ w then ofWord t - 1 else ofWord t

end CrystalLattice.Binary64
