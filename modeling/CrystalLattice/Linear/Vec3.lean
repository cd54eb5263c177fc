import CrystalLattice.Scalar

/-!
# Vectors of three components

Sums of products are taken component by component from the first to the last, so that a
binary64 instance rounds in exactly that order.
-/

namespace CrystalLattice

/-- Component indices are numerals of `Fin 3`; the zero of `Nat` is given outright so that the
statement does not depend on the algebraic instances in scope. -/
instance neZeroThree : @NeZero Nat ⟨0⟩ 3 := ⟨Nat.succ_ne_zero 2⟩

structure Vec3 (α : Type) where
  x : α
  y : α
  z : α
  deriving Repr, BEq

namespace Vec3

variable {α : Type}

def get (v : Vec3 α) : Fin 3 → α
  | 0 => v.x
  | 1 => v.y
  | 2 => v.z

def set (v : Vec3 α) (i : Fin 3) (a : α) : Vec3 α :=
  match i with
  | 0 => { v with x := a }
  | 1 => { v with y := a }
  | 2 => { v with z := a }

def ofFn (f : Fin 3 → α) : Vec3 α := ⟨f 0, f 1, f 2⟩

def map {β : Type} (f : α → β) (v : Vec3 α) : Vec3 β := ⟨f v.x, f v.y, f v.z⟩

def toList (v : Vec3 α) : List α := [v.x, v.y, v.z]

/-- The index of the first component that fails `p`, if any. -/
def findIdx? (p : α → Bool) (v : Vec3 α) : Option (Fin 3) :=
  if !p v.x then some 0 else if !p v.y then some 1 else if !p v.z then some 2 else none

variable [Scalar α]

def zero : Vec3 α := ⟨Scalar.zero, Scalar.zero, Scalar.zero⟩

def add (v w : Vec3 α) : Vec3 α := ⟨v.x + w.x, v.y + w.y, v.z + w.z⟩

def sub (v w : Vec3 α) : Vec3 α := ⟨v.x - w.x, v.y - w.y, v.z - w.z⟩

/-- The multiple `a • v`, the scalar on the left of each product. -/
def scale (a : α) (v : Vec3 α) : Vec3 α := ⟨a * v.x, a * v.y, a * v.z⟩

/-- The dot product, summed from the first component. -/
def dot (v w : Vec3 α) : α := v.x * w.x + v.y * w.y + v.z * w.z

def normSq (v : Vec3 α) : α := v.dot v

/-- The nearest integer vector, ties to even; a zero result is always the positive zero. -/
def round (v : Vec3 α) : Vec3 α :=
  v.map fun a => Scalar.roundHalfEven a + Scalar.zero

def floor (v : Vec3 α) : Vec3 α := v.map Scalar.floor

def allFinite (v : Vec3 α) : Bool := (v.findIdx? Scalar.isFinite).isNone

end Vec3

end CrystalLattice
