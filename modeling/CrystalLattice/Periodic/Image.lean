import CrystalLattice.Linear.Mat3

/-!
# Periodic images

A point of a periodic crystal is given by fractional coordinates; adding an integer offset
gives a periodic image of it. `Offset.images` lists the 27 offsets with entries in
`{-1, 0, 1}` in lexicographic order. `wrap` moves a point into the home cell `[0, 1)³`, and
`minimumImage` searches the 27 images of the wrapped difference for the shortest Cartesian
displacement, keeping the first of several equally short ones.
-/

namespace CrystalLattice

structure Offset where
  i : Int
  j : Int
  k : Int
  deriving Repr, BEq, DecidableEq

namespace Offset

def zero : Offset := ⟨0, 0, 0⟩

/-- The 27 offsets with entries in `{-1, 0, 1}`, in lexicographic order. -/
def images : List Offset :=
  [-1, 0, 1].flatMap fun i => [-1, 0, 1].flatMap fun j => [-1, 0, 1].map fun k => ⟨i, j, k⟩

def toVec {α : Type} [Scalar α] (o : Offset) : Vec3 α :=
  ⟨Scalar.ofInt o.i, Scalar.ofInt o.j, Scalar.ofInt o.k⟩

end Offset

/-- A shortest periodic displacement: the Cartesian vector, the image it reaches, and its
squared length, which is `none` when no image has a squared length below infinity (then the
vector is zero and the image is the zero offset). -/
structure Displacement (α : Type) where
  vector : Vec3 α
  image : Offset
  lengthSq : Option α
  deriving Repr, BEq

variable {α : Type} [Scalar α]

/-- The point moved into the home cell: each coordinate minus its floor, where a difference
that rounds up to one becomes zero. -/
def wrap (f : Vec3 α) : Vec3 α :=
  (f.sub f.floor).map fun w => if Scalar.le Scalar.one w then Scalar.zero else w

def keepShorter (reduced : Mat3 α) (pre : Vec3 α) (best : Displacement α) (o : Offset) :
    Displacement α :=
  let d := pre.add ((o.toVec : Vec3 α).mulMat reduced)
  let d2 := d.normSq
  let shorter := match best.lengthSq with
    | none => Scalar.isFinite d2
    | some b => Scalar.lt d2 b
  if shorter then ⟨d, o, some d2⟩ else best

/-- The shortest displacement from `f₁` to the periodic images of `f₂`: both points are taken to
the reduced frame by `inverse` and wrapped, and the 27 images around their difference searched. -/
def minimumImage (reduced inverse : Mat3 α) (f₁ f₂ : Vec3 α) : Displacement α :=
  let g₁ := wrap (f₁.mulMat inverse)
  let g₂ := wrap (f₂.mulMat inverse)
  let pre := (g₂.mulMat reduced).sub (g₁.mulMat reduced)
  Offset.images.foldl (keepShorter reduced pre) ⟨Vec3.zero, Offset.zero, none⟩

end CrystalLattice
