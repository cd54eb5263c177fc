import CrystalLattice.Linear.Mat3
import CrystalLattice.Failure

/-!
# Building vectors and matrices from lists

Lists of numbers become vectors and matrices only with exactly three entries per level and
finite values. The first fault found is reported: the number of rows, then each row in
order, where a row is checked for its length before its values.
-/

namespace CrystalLattice

variable {α : Type} [Scalar α]

namespace Vec3

/-- Succeeds when every component is finite; otherwise names the first component that is not. -/
def validateFinite (v : Vec3 α) : Except (Failure α) Unit :=
  match v.findIdx? Scalar.isFinite with
  | some i => .error (.ofCause (.nonFiniteComponent i.val))
  | none => .ok ()

def ofList? : List α → Except (Failure α) (Vec3 α)
  | [x, y, z] => do
    let v : Vec3 α := ⟨x, y, z⟩
    v.validateFinite
    pure v
  | l => .error (.ofCause (.length l.length))

end Vec3

namespace Mat3

/-- Succeeds when every entry is finite; otherwise names the first entry in row-major order
that is not. -/
def validateFinite (m : Mat3 α) : Except (Failure α) Unit :=
  match m.findIdx? Scalar.isFinite with
  | some (i, j) => .error (.ofCause (.nonFiniteEntry i.val j.val))
  | none => .ok ()

def ofRows? : List (List α) → Except (Failure α) (Mat3 α)
  | [a, b, c] => do
    let r0 ← (Vec3.ofList? a).mapError (Failure.within (.matrixRow 0))
    let r1 ← (Vec3.ofList? b).mapError (Failure.within (.matrixRow 1))
    let r2 ← (Vec3.ofList? c).mapError (Failure.within (.matrixRow 2))
    pure ⟨r0, r1, r2⟩
  | rows => .error (.ofCause (.rowCount rows.length))

end Mat3

end CrystalLattice
