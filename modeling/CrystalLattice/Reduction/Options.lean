import CrystalLattice.Linear.Inverse

/-!
# Settings of a reduction

A reduction is tuned by a list of settings applied in order: the Lovász parameter `δ`, a step
budget, the relative tolerance below which a basis vector counts as dependent, and whether the
steps are traced. A setting outside its range is recorded as a fault instead of being applied;
a later faulty setting replaces the recorded fault, and a later valid one does not clear it.
-/

namespace CrystalLattice.Reduction

inductive Setting (α : Type) where
  /-- The Lovász parameter, valid in `(1/4, 1)`. -/
  | delta (d : α)
  /-- The step budget, valid when positive. -/
  | maxSteps (n : Int)
  /-- The degeneracy tolerance, valid in `[0, 1)`. -/
  | tolerance (t : α)
  | trace
  deriving Repr, BEq

/-- The effective settings of a reduction, and the last fault among those given. -/
structure Options (α : Type) where
  delta : α
  maxSteps : Nat
  tolerance : α
  trace : Bool
  fault : Option (Cause α)

variable {α : Type} [Scalar α]

def defaultDelta : α := 0.75

def defaultMaxSteps : Nat := 10000

def defaultTolerance : α := 1e-12

/-- The slack allowed when a finished reduction checks its own result. -/
def checkSlack : α := 1e-9

def deltaValid (d : α) : Bool :=
  !(Scalar.isNaN d || Scalar.le d 0.25 || Scalar.le Scalar.one d)

def toleranceValid (t : α) : Bool :=
  !(Scalar.isNaN t || !Scalar.isFinite t || Scalar.lt t Scalar.zero || Scalar.le Scalar.one t)

def Options.default : Options α := ⟨defaultDelta, defaultMaxSteps, defaultTolerance, false, none⟩

def Options.apply (o : Options α) : Setting α → Options α
  | .delta d => if deltaValid d then { o with delta := d } else { o with fault := some (.badDelta d) }
  | .maxSteps n =>
    if n ≤ 0 then { o with fault := some (.badMaxSteps n) } else { o with maxSteps := n.toNat }
  | .tolerance t =>
    if toleranceValid t then { o with tolerance := t } else { o with fault := some (.badTolerance t) }
  | .trace => { o with trace := true }

/-- The options that a list of settings gives, applied from the first. -/
def Options.ofSettings (settings : List (Setting α)) : Options α :=
  settings.foldl Options.apply Options.default

end CrystalLattice.Reduction
