import CrystalLattice.Linear.Vec3

/-!
# Three-by-three matrices

A matrix is three rows. Products sum over the inner index from the first term, starting from
zero where the loop does, so that the binary64 instance rounds in exactly that order; the
determinant expands along the first row.
-/

namespace CrystalLattice

structure Mat3 (α : Type) where
  r0 : Vec3 α
  r1 : Vec3 α
  r2 : Vec3 α
  deriving Repr, BEq

namespace Mat3

variable {α : Type}

def row (m : Mat3 α) : Fin 3 → Vec3 α
  | 0 => m.r0
  | 1 => m.r1
  | 2 => m.r2

def get (m : Mat3 α) (i j : Fin 3) : α := (m.row i).get j

def ofRowFn (f : Fin 3 → Vec3 α) : Mat3 α := ⟨f 0, f 1, f 2⟩

def ofFn (f : Fin 3 → Fin 3 → α) : Mat3 α := ofRowFn fun i => Vec3.ofFn (f i)

def setRow (m : Mat3 α) (i : Fin 3) (v : Vec3 α) : Mat3 α :=
  match i with
  | 0 => { m with r0 := v }
  | 1 => { m with r1 := v }
  | 2 => { m with r2 := v }

def set (m : Mat3 α) (i j : Fin 3) (a : α) : Mat3 α := m.setRow i ((m.row i).set j a)

def col (m : Mat3 α) (j : Fin 3) : Vec3 α := ⟨m.r0.get j, m.r1.get j, m.r2.get j⟩

def setCol (m : Mat3 α) (j : Fin 3) (v : Vec3 α) : Mat3 α :=
  ⟨m.r0.set j v.x, m.r1.set j v.y, m.r2.set j v.z⟩

def swapCols (m : Mat3 α) (i j : Fin 3) : Mat3 α :=
  ofFn fun r c => if c = i then m.get r j else if c = j then m.get r i else m.get r c

def swapRows (m : Mat3 α) (i j : Fin 3) : Mat3 α :=
  (m.setRow i (m.row j)).setRow j (m.row i)

def ofCols (c0 c1 c2 : Vec3 α) : Mat3 α := ⟨⟨c0.x, c1.x, c2.x⟩, ⟨c0.y, c1.y, c2.y⟩, ⟨c0.z, c1.z, c2.z⟩⟩

def transpose (m : Mat3 α) : Mat3 α := ofCols m.r0 m.r1 m.r2

def mapRows {β : Type} (f : Vec3 α → Vec3 β) (m : Mat3 α) : Mat3 β := ⟨f m.r0, f m.r1, f m.r2⟩

def rows (m : Mat3 α) : List (Vec3 α) := [m.r0, m.r1, m.r2]

/-- The first entry in row-major order that fails `p`, if any. -/
def findIdx? (p : α → Bool) (m : Mat3 α) : Option (Fin 3 × Fin 3) :=
  match m.r0.findIdx? p, m.r1.findIdx? p, m.r2.findIdx? p with
  | some j, _, _ => some (0, j)
  | none, some j, _ => some (1, j)
  | none, none, some j => some (2, j)
  | none, none, none => none

variable [Scalar α]

def identity : Mat3 α :=
  ⟨⟨Scalar.one, Scalar.zero, Scalar.zero⟩, ⟨Scalar.zero, Scalar.one, Scalar.zero⟩,
    ⟨Scalar.zero, Scalar.zero, Scalar.one⟩⟩

def zero : Mat3 α := ⟨Vec3.zero, Vec3.zero, Vec3.zero⟩

/-- Entry `(i, j)` of the product: `0 + a i 0 * b 0 j + a i 1 * b 1 j + a i 2 * b 2 j`. -/
def mulEntry (a b : Mat3 α) (i j : Fin 3) : α :=
  Scalar.zero + a.get i 0 * b.get 0 j + a.get i 1 * b.get 1 j + a.get i 2 * b.get 2 j

def mul (a b : Mat3 α) : Mat3 α := ofFn (mulEntry a b)

/-- The product with a column vector: each row dotted with it. -/
def mulVec (m : Mat3 α) (v : Vec3 α) : Vec3 α := ⟨m.r0.dot v, m.r1.dot v, m.r2.dot v⟩

/-- The determinant, expanded along the first row. -/
def det (m : Mat3 α) : α :=
  m.get 0 0 * (m.get 1 1 * m.get 2 2 - m.get 1 2 * m.get 2 1) -
    m.get 0 1 * (m.get 1 0 * m.get 2 2 - m.get 1 2 * m.get 2 0) +
    m.get 0 2 * (m.get 1 0 * m.get 2 1 - m.get 1 1 * m.get 2 0)

def volume (m : Mat3 α) : α := Scalar.abs m.det

/-- The nearest integer matrix, ties to even, with positive zeros. -/
def round (m : Mat3 α) : Mat3 α := m.mapRows Vec3.round

/-- Whether every entry lies within `tol` of the nearest integer (a NaN distance passes). -/
def isInteger (m : Mat3 α) (tol : α) : Bool :=
  (m.findIdx? fun a => !Scalar.lt tol (Scalar.abs (a - Scalar.roundHalfEven a))).isNone

end Mat3

namespace Vec3

variable {α : Type} [Scalar α]

/-- The row vector times a matrix: component `j` is `0 + v 0 * m 0 j + v 1 * m 1 j + v 2 * m 2 j`. -/
def mulMat (v : Vec3 α) (m : Mat3 α) : Vec3 α :=
  ofFn fun j => Scalar.zero + v.x * m.get 0 j + v.y * m.get 1 j + v.z * m.get 2 j

end Vec3

end CrystalLattice
