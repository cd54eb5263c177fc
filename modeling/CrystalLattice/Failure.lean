/-!
# Failures

A failure is a cause together with the frames it passed through on the way out. The cause
fixes the kind of the failure, which callers can tell apart; the frames only add context to
the message. `Failure.message` writes the frames outermost first, each followed by `": "`, and
then the cause, with numbers of the scalar type written by a renderer that the caller supplies.
-/

namespace CrystalLattice

/-- The kinds of failure that callers can tell apart. -/
inductive Kind where
  | badShape
  | nonFinite
  | singular
  | degenerateLattice
  | divergence
  | optionViolation
  | notSizeReduced
  | lovaszViolated
  | lengthMismatch
  | siteIndex
  | badCutoff
  | emptyDocument
  | documentType
  | documentSyntax
  | other
  /-- A fault of the runtime, which ends the program instead of being returned. -/
  | crash
  deriving Repr, BEq, DecidableEq

/-- What went wrong. -/
inductive Cause (α : Type) where
  | rowCount (n : Nat)
  | length (n : Nat)
  /-- The matrix entry `(i, j)` is infinite or NaN. -/
  | nonFiniteEntry (i j : Nat)
  | nonFiniteComponent (i : Nat)
  | singular
  /-- The Lovász parameter lies outside `(1/4, 1)` or is NaN. -/
  | badDelta (delta : α)
  | badMaxSteps (n : Int)
  /-- The degeneracy tolerance lies outside `[0, 1)` or is not finite. -/
  | badTolerance (tol : α)
  /-- The slack of a reducedness check is negative or not finite. -/
  | badSlack (slack : α)
  /-- Basis vector `i` lies too close to the span of the ones before it. -/
  | degenerate (i : Nat) (normSq : α)
  | diverged (steps swaps : Nat)
  /-- The Gram–Schmidt coefficient `(i, j)` exceeds one half. -/
  | notSizeReduced (i j : Nat) (coefficient : α)
  /-- The Lovász condition fails between vectors `lower` and `lower + 1`. -/
  | lovaszViolated (lower : Nat) (normSq bound : α)
  | lengthMismatch (coords species : Nat)
  | siteIndex (i : Int) (count : Nat)
  /-- A neighbour cutoff is not positive and finite. -/
  | badCutoff (cutoff : α)
  | emptyDocument
  /-- A structure document has values of the wrong type; one message per value. -/
  | documentType (errors : List String)
  /-- A structure document is not well-formed; the message names the problem. -/
  | documentSyntax (message : String)
  | missingFile (path : String)
  | notFolder (path : String)
  | runtimeFault (message : String)
  deriving Repr, BEq

/-- A context that a failure passed through. -/
inductive Frame where
  | matrixRow (i : Nat)
  | inverse
  | reduce
  | check
  | gramSchmidt
  | newCell
  | newLattice
  | newSite (i : Nat)
  | parse
  | parseLattice
  | parseSite (i : Nat)
  | load
  deriving Repr, BEq, DecidableEq

/-- A failure: its cause and its frames, outermost first. -/
structure Failure (α : Type) where
  frames : List Frame
  cause : Cause α
  deriving Repr, BEq

namespace Cause

variable {α : Type}

/-- The kind of failure a cause makes. -/
def kind : Cause α → Kind
  | rowCount _ | length _ => .badShape
  | nonFiniteEntry _ _ | nonFiniteComponent _ => .nonFinite
  | singular => .singular
  | badDelta _ | badMaxSteps _ | badTolerance _ | badSlack _ => .optionViolation
  | degenerate _ _ => .degenerateLattice
  | diverged _ _ => .divergence
  | notSizeReduced _ _ _ => .notSizeReduced
  | lovaszViolated _ _ _ => .lovaszViolated
  | lengthMismatch _ _ => .lengthMismatch
  | siteIndex _ _ => .siteIndex
  | badCutoff _ => .badCutoff
  | emptyDocument => .emptyDocument
  | documentType _ => .documentType
  | documentSyntax _ => .documentSyntax
  | missingFile _ | notFolder _ => .other
  | runtimeFault _ => .crash

def text (render : α → String) : Cause α → String
  | rowCount n => s!"FromRows: {n} rows: matrix: invalid shape"
  | length n => s!"VecFromSlice: length {n}: matrix: invalid shape"
  | nonFiniteEntry i j => s!"ValidateFinite({i},{j}): matrix: NaN or Inf encountered"
  | nonFiniteComponent i => s!"ValidateFiniteVec({i}): matrix: NaN or Inf encountered"
  | singular => "matrix: singular matrix"
  | badDelta d => "lll: invalid option supplied: delta " ++ render d ++ " outside (0.25, 1)"
  | badMaxSteps n => s!"lll: invalid option supplied: max steps {n} must be > 0"
  | badTolerance t => "lll: invalid option supplied: tolerance " ++ render t ++ " outside [0, 1)"
  | badSlack s => "lll: invalid option supplied: slack " ++ render s ++ " must be finite and >= 0"
  | degenerate i m => s!"vector {i}: orthogonal norm² " ++ render m ++ ": lll: degenerate lattice"
  | diverged steps swaps =>
    s!"lll: reduction did not terminate after {steps} steps ({swaps} swaps)"
  | notSizeReduced i j u => s!"u[{i}][{j}] = " ++ render u ++ ": lll: basis is not size-reduced"
  | lovaszViolated lower m bound =>
    s!"pair ({lower},{lower + 1}): m=" ++ render m ++ " < (δ-u²)·m'=" ++ render bound ++
      ": lll: Lovász condition violated"
  | lengthMismatch c s =>
    s!"New: {c} coords, {s} species: structure: coords and species length mismatch"
  | siteIndex i n => s!"site {i} of {n}: structure: site index out of range"
  | badCutoff c =>
    "Neighbors: cutoff " ++ render c ++ ": structure: cutoff must be positive and finite"
  | emptyDocument => "structure: document has no lattice"
  | documentType errors => "yaml: unmarshal errors:\n  " ++ "\n  ".intercalate errors
  | documentSyntax message => "yaml: " ++ message
  | missingFile path => s!"open {path}: no such file or directory"
  | notFolder path => s!"open {path}: not a directory"
  | runtimeFault message => message

end Cause

def Frame.text : Frame → String
  | .matrixRow i => s!"FromRows: row {i}"
  | .inverse => "Inverse"
  | .reduce => "Reduce"
  | .check => "Check"
  | .gramSchmidt => "GramSchmidt"
  | .newCell => "NewCell"
  | .newLattice => "New: lattice"
  | .newSite i => s!"New: site {i}"
  | .parse => "parse structure"
  | .parseLattice => "parse structure: lattice"
  | .parseSite i => s!"parse structure: site {i}"
  | .load => "load structure"

namespace Failure

variable {α : Type}

def ofCause (c : Cause α) : Failure α := ⟨[], c⟩

/-- The same failure, passed out through one more frame. -/
def within (f : Frame) (e : Failure α) : Failure α := ⟨f :: e.frames, e.cause⟩

def kind (e : Failure α) : Kind := e.cause.kind

/-- The message: each frame and then the cause, joined by `": "`. -/
def message (render : α → String) (e : Failure α) : String :=
  String.join (e.frames.map fun f => f.text ++ ": ") ++ e.cause.text render

end Failure

end CrystalLattice
