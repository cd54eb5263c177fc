import CrystalLattice.Binary64

/-!
# Shortest decimal digits of a binary64 value

The shortest decimal that reads back as a float is found grid by grid, for `1, 2, …, 17`
significant digits, testing the two grid neighbours of the value for membership in its rounding
interval in exact natural-number arithmetic.
-/

namespace CrystalLattice.Decimal

structure Number where
  mantissa : Nat
  exponent : Int
  deriving Repr, BEq, DecidableEq

def digitCount (n : Nat) : Nat :=
  if n = 0 then 0 else digitCount (n / 10) + 1
termination_by n
decreasing_by omega

def digits (n : Nat) : List Nat :=
  if n = 0 then [] else digits (n / 10) ++ [n % 10]
termination_by n
decreasing_by omega

def Number.trim (d : Number) : Number :=
  if d.mantissa ≠ 0 ∧ d.mantissa % 10 = 0 then
    Number.trim ⟨d.mantissa / 10, d.exponent + 1⟩
  else d
termination_by d.mantissa
decreasing_by omega

/-- The magnitude of a finite binary64 word as `significand × 2 ^ exponent`. -/
def binaryValue (w : Nat) : Nat × Int :=
  let e := Binary64.exponentField w
  let f := Binary64.fractionField w
  if e = 0 then (f, -1074) else (f + Nat.pow 2 52, (e : Int) - 1075)

/-- The exact rational `num / den` of `m × 10 ^ p × 2 ^ k`, as a pair of naturals. -/
def scaled (m : Nat) (p k : Int) : Nat × Nat :=
  (m * Nat.pow 10 p.toNat * Nat.pow 2 k.toNat, Nat.pow 10 (-p).toNat * Nat.pow 2 (-k).toNat)

/-- Compare `a × 10 ^ p` with `b × 2 ^ k` exactly. -/
def compareScaled (a : Nat) (p : Int) (b : Nat) (k : Int) : Ordering :=
  compare (a * Nat.pow 10 p.toNat * Nat.pow 2 (-k).toNat) (b * Nat.pow 2 k.toNat * Nat.pow 10 (-p).toNat)

/-- The exponent `t` with `10 ^ t ≤ num / den < 10 ^ (t + 1)`, for positive `num` and `den`. -/
def decimalExponent (num den : Nat) : Int :=
  if den ≤ num then ((digitCount (num / den) : Int) - 1)
  else
    let t := digitCount den - digitCount num
    if den ≤ num * Nat.pow 10 t then -(t : Int) else -((t + 1 : Nat) : Int)

/-- The rounding interval of `m × 2 ^ e` in units of `2 ^ (e - 2)`: its low end, its high end,
and whether the ends belong to it. The low end is nearer when the significand is a power of two
above the smallest normal exponent, where the spacing below halves. -/
def roundingInterval (m : Nat) (e : Int) : Nat × Nat × Bool :=
  let low := if m = Nat.pow 2 52 ∧ e > -1074 then 4 * m - 1 else 4 * m - 2
  (low, 4 * m + 2, m % 2 == 0)

def inInterval (m : Nat) (e : Int) (d : Nat) (p : Int) : Bool :=
  let (low, high, closed) := roundingInterval m e
  let k := e - 2
  let aboveLow := match compareScaled d p low k with
    | .gt => true
    | .eq => closed
    | .lt => false
  let belowHigh := match compareScaled d p high k with
    | .lt => true
    | .eq => closed
    | .gt => false
  aboveLow && belowHigh

/-- The choice on the grid `10 ^ p`: the members among the two neighbours of `m × 2 ^ e`,
the nearer one if both are members (the even one on an exact tie), or `none`. -/
def pickOnGrid (m : Nat) (e : Int) (p : Int) : Option Nat :=
  let (num, den) := scaled m (-p) e
  let lo := num / den
  let hi := if num % den = 0 then lo else lo + 1
  let loIn := inInterval m e lo p
  let hiIn := inInterval m e hi p
  if loIn && hiIn && lo != hi then
    match compare (2 * num) ((2 * lo + 1) * den) with
    | .lt => some lo
    | .gt => some hi
    | .eq => some (if lo % 2 = 0 then lo else hi)
  else if loIn then some lo
  else if hiIn then some hi
  else none

/-- The search over grids with `n, n + 1, …, 17` significant digits, where `top` is the
decimal exponent of the value's leading digit. -/
def searchGrids (m : Nat) (e : Int) (top : Int) (n : Nat) (fuel : Nat) : Number :=
  let p := top - ((n : Int) - 1)
  match fuel, pickOnGrid m e p with
  | _, some d => Number.trim ⟨d, p⟩
  | 0, none =>
    let (num, den) := scaled m (-p) e
    Number.trim ⟨num / den, p⟩
  | fuel + 1, none => searchGrids m e top (n + 1) fuel

/-- The shortest decimal that reads back as `m × 2 ^ e` (for `m > 0`). -/
def shortestOf (m : Nat) (e : Int) : Number :=
  let (num, den) := scaled m 0 e
  searchGrids m e (decimalExponent num den) 1 16

/-- The shortest decimal that reads back as the magnitude of a finite word; zero for zeros. -/
def shortest (w : Nat) : Number :=
  let (m, e) := binaryValue w
  if m = 0 then ⟨0, 0⟩ else shortestOf m e

end CrystalLattice.Decimal
