import CrystalLattice.Reduction.GramSchmidt

/-!
# Checking that a basis is reduced

A basis is LLL-reduced for `δ` when every Gram–Schmidt coefficient below the diagonal is at
most one half in size, and each consecutive pair satisfies the Lovász condition
`‖b*ᵢ‖² ≥ (δ - μᵢ,ᵢ₋₁²) ‖b*ᵢ₋₁‖²`. The check allows a slack `s`: coefficients up to `1/2 + s`,
and the Lovász bound multiplied by `1 - s`. Its arguments are checked first: `δ`, then `s`,
then the finiteness of the basis, then its degeneracy.
-/

namespace CrystalLattice.Reduction

variable {α : Type} [Scalar α]

def slackValid (s : α) : Bool :=
  !(Scalar.isNaN s || !Scalar.isFinite s || Scalar.lt s Scalar.zero)

/-- The first coefficient `(i, j)` below the diagonal, in the order `(1,0), (2,0), (2,1)`, whose
size exceeds `1/2 + s`. -/
def oversizedCoeff? (g : GramSchmidt α) (s : α) : Option (Fin 3 × Fin 3) :=
  [((1 : Fin 3), (0 : Fin 3)), (2, 0), (2, 1)].find? fun (i, j) =>
    Scalar.lt (0.5 + s) (Scalar.abs (g.coeff.get i j))

/-- The Lovász bound `(δ - μ²) ‖b*ᵢ₋₁‖²` for the pair ending at `i`. -/
def lovaszBound (g : GramSchmidt α) (delta : α) (i : Fin 3) (lower : Fin 3) : α :=
  let mu := g.coeff.get i lower
  (delta - mu * mu) * g.normSq.get lower

/-- The first pair `(i - 1, i)` whose Lovász condition fails under slack `s`. -/
def lovaszFailure? (g : GramSchmidt α) (delta s : α) : Option (Fin 3 × Fin 3) :=
  [((0 : Fin 3), (1 : Fin 3)), (1, 2)].find? fun (lower, i) =>
    Scalar.lt (g.normSq.get i) (lovaszBound g delta i lower * (Scalar.one - s))

/-- Check that a basis (the rows of a matrix) is reduced for `δ` with slack `s`, taking vectors
as dependent below the relative tolerance `tol`. -/
def checkReduced (basis : Mat3 α) (delta s tol : α) : Except (Failure α) Unit :=
  let body : Except (Failure α) Unit := do
    if !deltaValid delta then throw (.ofCause (.badDelta delta))
    if !slackValid s then throw (.ofCause (.badSlack s))
    basis.validateFinite
    let g ← (GramSchmidt.compute basis tol).mapError Failure.ofCause
    if let some (i, j) := oversizedCoeff? g s then
      throw (.ofCause (.notSizeReduced i.val j.val (g.coeff.get i j)))
    if let some (lower, i) := lovaszFailure? g delta s then
      throw (.ofCause (.lovaszViolated lower.val (g.normSq.get i) (lovaszBound g delta i lower)))
  body.mapError (Failure.within .check)

def check (basis : Mat3 α) (delta s : α) : Except (Failure α) Unit :=
  checkReduced basis delta s defaultTolerance

end CrystalLattice.Reduction
