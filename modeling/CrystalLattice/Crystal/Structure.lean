import CrystalLattice.Periodic.Cell

/-!
# Crystal structures

A structure is a lattice with sites, each a fractional position and an integer species. Its
cell, that is the reduction of the lattice, is computed on the first query that needs it and
then kept, failure included, so the reduction runs at most once; queries are therefore
functions from a structure to an answer and the structure after it. Site indices are checked
before anything else a query does.
-/

namespace CrystalLattice

/-- A crystal structure with its cell, once computed. -/
structure Structure (α : Type) where
  lattice : Mat3 α
  coords : Array (Vec3 α)
  species : Array Int
  sites_size : coords.size = species.size
  settings : List (Reduction.Setting α)
  /-- The cell and the reduction steps it reported, once some query has needed it. -/
  cache : Option (Option (Array Reduction.StepEvent) × Except (Failure α) (Cell α))

/-- A site within a cutoff of another, with the displacement to it. -/
structure Neighbor where
  index : Nat
  species : Int
  displacement : Displacement Float

namespace Structure

variable {α : Type} [Scalar α]

/-- A structure from a lattice and its sites; coordinates and species must agree in number,
and lattice and coordinates must be finite. Nothing is reduced yet. -/
def new (lattice : Mat3 α) (coords : Array (Vec3 α)) (species : Array Int)
    (settings : List (Reduction.Setting α)) : Except (Failure α) (Structure α) :=
  if hsize : coords.size = species.size then do
    lattice.validateFinite.mapError (Failure.within .newLattice)
    for h : i in [0:coords.size] do
      coords[i].validateFinite.mapError (Failure.within (.newSite i))
    pure ⟨lattice, coords, species, hsize, settings, none⟩
  else throw (.ofCause (.lengthMismatch coords.size species.size))

def size (s : Structure α) : Nat := s.coords.size

def volume (s : Structure α) : α := s.lattice.volume

/-- The cell, computed on first use and then kept. -/
def cell (s : Structure α) : Except (Failure α) (Cell α) × Structure α :=
  match s.cache with
  | some (_, c) => (c, s)
  | none =>
    let out := Cell.new s.lattice s.settings
    (out.2, { s with cache := some out })

def trace (s : Structure α) : Option (Array Reduction.StepEvent) :=
  match s.cache with
  | some (t, _) => t
  | none => if (Reduction.Options.ofSettings s.settings).trace then some #[] else none

/-- The site at index `i`, or the failure that names a bad index. -/
def site? (s : Structure α) (i : Int) : Except (Failure α) (Vec3 α) :=
  if h : 0 ≤ i ∧ i < s.coords.size then
    have : i.toNat < s.coords.size := by omega
    .ok s.coords[i.toNat]
  else .error (.ofCause (.siteIndex i s.coords.size))

/-- The shortest displacement between two fractional points. -/
def displacement (s : Structure α) (f₁ f₂ : Vec3 α) :
    Except (Failure α) (Displacement α) × Structure α :=
  let (c, s) := s.cell
  (c.map fun c => c.minimumImage f₁ f₂, s)

/-- The shortest displacement from site `i` to the images of site `j`, indices checked first. -/
def siteDisplacement (s : Structure α) (i j : Int) :
    Except (Failure α) (Displacement α) × Structure α :=
  match s.site? i, s.site? j with
  | .error e, _ => (.error e, s)
  | .ok _, .error e => (.error e, s)
  | .ok a, .ok b => s.displacement a b

end Structure

namespace Structure

def cutoffValid (c : Float) : Bool := !(c.isNaN || c.isInf || c ≤ 0)

/-- The sites other than `i` whose nearest image lies within `cutoff` of site `i`, nearest first
and, at equal distance, in index order. The index is checked first, then the cutoff, and only
then is the cell needed. -/
def neighbors (s : Structure Float) (i : Int) (cutoff : Float) :
    Except (Failure Float) (List Neighbor) × Structure Float :=
  match s.site? i with
  | .error e => (.error e, s)
  | .ok centre =>
    if !cutoffValid cutoff then (.error (.ofCause (.badCutoff cutoff)), s)
    else
      let (c, s) := s.cell
      match c with
      | .error e => (.error e, s)
      | .ok c =>
        let found := (List.range s.coords.size).zip (s.coords.toList.zip s.species.toList)
          |>.filterMap fun (j, p, sp) =>
            if j = i.toNat then none
            else
              let d := c.minimumImage centre p
              if d.distance ≤ cutoff then some ⟨j, sp, d⟩ else none
        (.ok (found.mergeSort fun a b => a.displacement.distance ≤ b.displacement.distance), s)

end Structure

end CrystalLattice
