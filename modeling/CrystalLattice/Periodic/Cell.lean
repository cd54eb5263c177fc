import CrystalLattice.Periodic.Image
import CrystalLattice.Reduction.Run

/-!
# Periodic cells

A cell is a lattice together with its reduction. Minimum images are searched in the reduced
basis, where 27 images suffice, and fractional points are read in the input lattice.
-/

namespace CrystalLattice

/-- A lattice with its LLL reduction. -/
structure Cell (α : Type) where
  lattice : Mat3 α
  reduction : Reduction.Result α
  deriving Repr, BEq

namespace Cell

variable {α : Type} [Scalar α]

/-- The cell of a lattice, reduced under the given settings, with the steps reported. -/
def new (lattice : Mat3 α) (settings : List (Reduction.Setting α)) :
    Option (Array Reduction.StepEvent) × Except (Failure α) (Cell α) :=
  let run := Reduction.reduce lattice settings
  (run.trace, (run.result.map fun red => ⟨lattice, red⟩).mapError (Failure.within .newCell))

/-- The shortest displacement from `f₁` to the periodic images of `f₂`. -/
def minimumImage (c : Cell α) (f₁ f₂ : Vec3 α) : Displacement α :=
  CrystalLattice.minimumImage c.reduction.reduced c.reduction.inverse f₁ f₂

def toCartesian (c : Cell α) (f : Vec3 α) : Vec3 α := f.mulMat c.lattice

end Cell

/-- The length of a displacement: the square root of its squared length, and `+∞` when no
image was found. -/
def Displacement.distance (d : Displacement Float) : Float :=
  match d.lengthSq with
  | some s => s.sqrt
  | none => 1 / 0

end CrystalLattice
