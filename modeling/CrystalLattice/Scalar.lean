import CrystalLattice.Binary64

/-!
# Scalars

The lattice kernels are written once against `Scalar`, the arithmetic they use: the four
operations, literals, comparisons that answer `false` on a NaN, absolute value, the two
integer roundings, and the tests for NaN and finiteness. Binary64 floats are the instance that
runs; exact rationals are the instance in which statements about exact arithmetic are made.
-/

namespace CrystalLattice

/-- The arithmetic of the lattice kernels. -/
class Scalar (α : Type) extends Add α, Sub α, Mul α, Div α, Neg α, OfScientific α where
  zero : α
  one : α
  /-- `x < y`; false when either is NaN. -/
  lt : α → α → Bool
  /-- `x ≤ y`; false when either is NaN. -/
  le : α → α → Bool
  /-- `x = y` as numbers: the two zeros are equal and a NaN equals nothing. -/
  eq : α → α → Bool
  abs : α → α
  floor : α → α
  roundHalfEven : α → α
  /-- The nearest value to an integer. -/
  ofInt : Int → α
  isNaN : α → Bool
  isFinite : α → Bool

instance : Scalar Float where
  zero := 0
  one := 1
  lt x y := x < y
  le x y := x ≤ y
  eq x y := x == y
  abs := Float.abs
  floor := Binary64.floor
  roundHalfEven := Binary64.roundHalfEven
  ofInt := Float.ofInt
  isNaN := Float.isNaN
  isFinite := Float.isFinite

/-- The nearest integer to a rational, ties to even. -/
def ratRoundHalfEven (q : Rat) : Int :=
  let n := q.floor
  let frac := q - n
  if frac < (1 : Rat) / 2 then n
  else if (1 : Rat) / 2 < frac then n + 1
  else if n % 2 = 0 then n else n + 1

instance : Scalar Rat where
  zero := 0
  one := 1
  lt x y := decide (x < y)
  le x y := decide (x ≤ y)
  eq x y := decide (x = y)
  abs := Rat.abs
  floor q := q.floor
  roundHalfEven q := ratRoundHalfEven q
  ofInt n := n
  isNaN _ := false
  isFinite _ := true

end CrystalLattice
