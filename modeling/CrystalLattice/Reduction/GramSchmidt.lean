import CrystalLattice.Reduction.Options

/-!
# Gram–Schmidt orthogonalisation

For a basis `b₀, b₁, b₂` (the rows of a matrix) the orthogonalisation gives vectors
`b*ᵢ = bᵢ - Σ_{j<i} μᵢⱼ b*ⱼ` with coefficients `μᵢⱼ = ⟨bᵢ, b*ⱼ⟩ / ‖b*ⱼ‖²`, and their squared
lengths. Row `i` is computed from the rows before it, so a row can be refreshed alone after
the basis changed there. A vector whose orthogonal part has squared length zero, or at most
`tol` times its own squared length, makes the basis degenerate.
-/

namespace CrystalLattice.Reduction

/-- The orthogonalisation of a basis: orthogonal vectors `b*ᵢ` as rows, their squared lengths,
and the coefficients `μᵢⱼ` below the diagonal (zero on and above it). -/
structure GramSchmidt (α : Type) where
  ortho : Mat3 α
  normSq : Vec3 α
  coeff : Mat3 α
  deriving Repr, BEq

namespace GramSchmidt

variable {α : Type} [Scalar α]

def empty : GramSchmidt α := ⟨Mat3.zero, Vec3.zero, Mat3.zero⟩

/-- Row `i` of the coefficients for the vector `a`, from the rows before `i`. -/
def coeffRow (g : GramSchmidt α) (a : Vec3 α) (i : Fin 3) : Vec3 α :=
  Vec3.ofFn fun j => if j < i then a.dot (g.ortho.row j) / g.normSq.get j else Scalar.zero

/-- The projection `Σ_{j<i} c j • b*ⱼ` onto the orthogonal vectors before `i`, summed from zero. -/
def projection (g : GramSchmidt α) (c : Vec3 α) : Fin 3 → Vec3 α
  | 0 => Vec3.zero
  | 1 => Vec3.zero.add ((g.ortho.row 0).scale c.x)
  | 2 => (Vec3.zero.add ((g.ortho.row 0).scale c.x)).add ((g.ortho.row 1).scale c.y)

/-- Recompute row `i` of the orthogonalisation from row `i` of the basis. -/
def refresh (g : GramSchmidt α) (basis : Mat3 α) (tol : α) (i : Fin 3) :
    Except (Cause α) (GramSchmidt α) :=
  let a := basis.row i
  let c := g.coeffRow a i
  let b := a.sub (g.projection c i)
  let m := b.normSq
  if Scalar.le m (tol * a.normSq) || Scalar.eq m Scalar.zero then .error (.degenerate i.val m)
  else .ok ⟨g.ortho.setRow i b, g.normSq.set i m, g.coeff.setRow i c⟩

def refreshFrom (g : GramSchmidt α) (basis : Mat3 α) (tol : α) (i : Nat) :
    Except (Cause α) (GramSchmidt α) :=
  if h : i < 3 then do
    let g ← g.refresh basis tol ⟨i, h⟩
    g.refreshFrom basis tol (i + 1)
  else .ok g
termination_by 3 - i

def compute (basis : Mat3 α) (tol : α) : Except (Cause α) (GramSchmidt α) :=
  empty.refreshFrom basis tol 0

/-- The orthogonalisation of the rows of a lattice with the default tolerance, for a lattice
with finite entries. -/
def ofLattice (lattice : Mat3 α) : Except (Failure α) (GramSchmidt α) := do
  lattice.validateFinite.mapError (Failure.within .gramSchmidt)
  (compute lattice defaultTolerance).mapError fun c => .within .gramSchmidt (.ofCause c)

end GramSchmidt

end CrystalLattice.Reduction
