import CrystalLattice.Linear.Shape

/-!
# The inverse of a matrix

The inverse is the adjugate divided entrywise by the determinant. It is refused for a matrix
with a non-finite entry, for a zero determinant, and when the division leaves a non-finite
entry, which in binary64 happens when the determinant underflows.
-/

namespace CrystalLattice.Mat3

variable {α : Type} [Scalar α]

/-- The adjugate: the transposed matrix of cofactors. -/
def adjugate (m : Mat3 α) : Mat3 α :=
  let a := m.get
  ⟨⟨a 1 1 * a 2 2 - a 1 2 * a 2 1, a 0 2 * a 2 1 - a 0 1 * a 2 2, a 0 1 * a 1 2 - a 0 2 * a 1 1⟩,
   ⟨a 1 2 * a 2 0 - a 1 0 * a 2 2, a 0 0 * a 2 2 - a 0 2 * a 2 0, a 0 2 * a 1 0 - a 0 0 * a 1 2⟩,
   ⟨a 1 0 * a 2 1 - a 1 1 * a 2 0, a 0 1 * a 2 0 - a 0 0 * a 2 1, a 0 0 * a 1 1 - a 0 1 * a 1 0⟩⟩

/-- The inverse of a matrix with finite entries and nonzero determinant. -/
def inverse (m : Mat3 α) : Except (Failure α) (Mat3 α) := do
  m.validateFinite.mapError (Failure.within .inverse)
  let d := m.det
  if Scalar.eq d Scalar.zero then throw (.within .inverse (.ofCause .singular))
  let inv := m.adjugate.mapRows (Vec3.map (· / d))
  match inv.validateFinite with
  | .ok () => pure inv
  | .error _ => throw (.within .inverse (.ofCause .singular))

end CrystalLattice.Mat3
