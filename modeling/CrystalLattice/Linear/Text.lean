import CrystalLattice.Linear.Mat3
import CrystalLattice.Decimal.Layout

/-!
# Vectors and matrices as text

A vector is written in brackets, its components separated by a comma and a space, each in a
layout the caller picks. A matrix is written as its rows, one per line, in the shortest
layout that reads back as the same float.
-/

namespace CrystalLattice

/-- A vector as `[x, y, z]`, each component laid out by `num`. -/
def Vec3.text (num : Float → String) (v : Vec3 Float) : String :=
  "[" ++ num v.x ++ ", " ++ num v.y ++ ", " ++ num v.z ++ "]"

def Mat3.text (m : Mat3 Float) : String :=
  String.join (m.rows.map fun r => Vec3.text Decimal.render r ++ "\n")

end CrystalLattice
