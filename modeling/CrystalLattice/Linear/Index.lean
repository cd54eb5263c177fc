import CrystalLattice.Linear.Mat3

/-!
# Indexing rows and columns by integers

Rows and columns are numbered `0, 1, 2`. An integer outside that range is a fault of the
caller, reported with the index and, for a non-negative index, the length it exceeded. An
exchange of columns `i` and `j` reads column `j` first, so a bad `j` is the one reported
when both are bad.
-/

namespace CrystalLattice

/-- An index outside `[0, length)`. -/
structure OutOfRange where
  index : Int
  length : Nat
  deriving Repr, BEq

def OutOfRange.message (e : OutOfRange) : String :=
  if e.index < 0 then s!"runtime error: index out of range [{e.index}]"
  else s!"runtime error: index out of range [{e.index}] with length {e.length}"

def toFin3? (i : Int) : Except OutOfRange (Fin 3) :=
  if h : 0 ≤ i ∧ i < 3 then .ok ⟨i.toNat, by omega⟩ else .error ⟨i, 3⟩

namespace Mat3

variable {α : Type}

def rowAt? (m : Mat3 α) (i : Int) : Except OutOfRange (Vec3 α) := do
  pure (m.row (← toFin3? i))

def colAt? (m : Mat3 α) (j : Int) : Except OutOfRange (Vec3 α) := do
  pure (m.col (← toFin3? j))

def setColAt? (m : Mat3 α) (j : Int) (v : Vec3 α) : Except OutOfRange (Mat3 α) := do
  pure (m.setCol (← toFin3? j) v)

/-- The matrix with columns `i` and `j` exchanged, for integers `i` and `j`; `j` is checked first. -/
def swapColsAt? (m : Mat3 α) (i j : Int) : Except OutOfRange (Mat3 α) := do
  let j ← toFin3? j
  let i ← toFin3? i
  pure (m.swapCols i j)

end Mat3

end CrystalLattice
