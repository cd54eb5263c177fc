import CrystalLattice.Reduction.Check

/-!
# LLL reduction

The loop keeps the basis, the integer matrix from the input, the orthogonalisation and a pointer
`k ∈ {2, 3, 4}`. A step size-reduces vector `k - 1` and then advances, or swaps the pair, refreshes
and moves back. At the end the integer matrix is rounded and inverted, and the basis checked.
-/

namespace CrystalLattice.Reduction

/-- What a step did after size reduction. -/
inductive Action where
  | advance
  | swap
  deriving Repr, BEq, DecidableEq

def Action.code : Action → Int
  | .advance => 0
  | .swap => 1

/-- The name of an action code: the action's own name, or the code itself for an unknown one. -/
def Action.describe (code : Int) : String :=
  if code = 0 then "advance" else if code = 1 then "swap" else s!"Action({code})"

/-- The report of one step. -/
structure StepEvent where
  iteration : Nat
  k : Nat
  action : Action
  updates : Nat
  swaps : Nat
  deriving Repr, BEq

/-- The state of a reduction between steps. -/
structure Progress (α : Type) where
  basis : Mat3 α
  /-- Row `i` holds the integer coefficients of basis vector `i` over the input basis. -/
  mapping : Mat3 α
  gs : GramSchmidt α
  k : Nat
  steps : Nat
  swaps : Nat

/-- A finished reduction: the reduced basis, the integer matrix from the input basis to it and
its inverse, and the numbers of steps and swaps. -/
structure Result (α : Type) where
  reduced : Mat3 α
  mapping : Mat3 α
  inverse : Mat3 α
  steps : Nat
  swaps : Nat
  deriving Repr, BEq

/-- A reduction's outcome together with the steps it reported, when tracing was asked for. -/
structure Run (α : Type) where
  trace : Option (Array StepEvent)
  result : Except (Failure α) (Result α)

variable {α : Type} [Scalar α]

namespace Progress

/-- Subtract `q` times vector `i` from vector `r` in the basis and in the integer matrix, and
update row `r` of the coefficients to match: `μᵣⱼ -= q μᵢⱼ` for `j < i` and `μᵣᵢ -= q`. -/
def subtractMultiple (p : Progress α) (r i : Fin 3) (q : α) : Progress α :=
  let basis := p.basis.setRow r ((p.basis.row r).sub ((p.basis.row i).scale q))
  let mapping := p.mapping.setRow r ((p.mapping.row r).sub ((p.mapping.row i).scale q))
  let row := p.gs.coeff.row r
  let row := Vec3.ofFn fun j =>
    if j < i then row.get j - q * p.gs.coeff.get i j
    else if j = i then row.get j - q
    else row.get j
  { p with basis, mapping, gs := { p.gs with coeff := p.gs.coeff.setRow r row } }

/-- Size-reduce vector `r` against vector `i` when their coefficient exceeds one half. -/
def reduceAgainst (r : Fin 3) (acc : Progress α × Nat) (i : Fin 3) : Progress α × Nat :=
  let (p, updates) := acc
  let u := p.gs.coeff.get r i
  if Scalar.le (Scalar.abs u) 0.5 then (p, updates)
  else (p.subtractMultiple r i (Scalar.roundHalfEven u), updates + 1)

def below : Fin 3 → List (Fin 3)
  | 0 => []
  | 1 => [0]
  | 2 => [1, 0]

/-- Size-reduce vector `r` against every vector below it, nearest first; also count updates. -/
def sizeReduce (p : Progress α) (r : Fin 3) : Progress α × Nat :=
  (below r).foldl (reduceAgainst r) (p, 0)

/-- Whether the Lovász condition holds for the pair `(r - 1, r)`. -/
def lovaszHolds (p : Progress α) (delta : α) (r lower : Fin 3) : Bool :=
  let mu := p.gs.coeff.get r lower
  Scalar.le ((delta - mu * mu) * p.gs.normSq.get lower) (p.gs.normSq.get r)

/-- One step at pointer `k ∈ {2, 3}`: size reduction of vector `k - 1`, then an advance or a
swap with the vector below. -/
def step (o : Options α) (p : Progress α) : Except (Cause α) (Progress α × StepEvent) :=
  if h : 2 ≤ p.k ∧ p.k ≤ 3 then
    let r : Fin 3 := ⟨p.k - 1, by omega⟩
    let lower : Fin 3 := ⟨p.k - 2, by omega⟩
    let steps := p.steps + 1
    let (p, updates) := sizeReduce { p with steps } r
    if p.lovaszHolds o.delta r lower then
      .ok ({ p with k := p.k + 1 }, ⟨steps, p.k, .advance, updates, p.swaps⟩)
    else do
      let swaps := p.swaps + 1
      let basis := p.basis.swapRows r lower
      let gs ← p.gs.refreshFrom basis o.tolerance lower.val
      let k := if p.k > 2 then p.k - 1 else p.k
      pure ({ p with basis, mapping := p.mapping.swapRows r lower, gs, k, swaps },
        ⟨steps, p.k, .swap, updates, swaps⟩)
  else .ok (p, ⟨p.steps, p.k, .advance, 0, p.swaps⟩)

end Progress

/-- Run steps until the pointer passes the last vector, with `budget` steps left; the events
are collected in `trace`. -/
def runSteps (o : Options α) (budget : Nat) (p : Progress α) (trace : Array StepEvent) :
    Array StepEvent × Except (Failure α) (Progress α) :=
  if p.k > 3 then (trace, .ok p)
  else
    match budget with
    | 0 => (trace, .error (.within .reduce (.ofCause (.diverged p.steps p.swaps))))
    | budget + 1 =>
      match p.step o with
      | .error c => (trace, .error (.within .reduce (.ofCause c)))
      | .ok (p, event) => runSteps o budget p (trace.push event)

/-- Round the integer matrix, invert it, and check the reduced basis. -/
def finish (o : Options α) (p : Progress α) : Except (Failure α) (Result α) := do
  let mapping := p.mapping.round
  let inverse ← mapping.inverse.mapError (Failure.within .reduce)
  let res : Result α := ⟨p.basis, mapping, inverse.round, p.steps, p.swaps⟩
  (checkReduced res.reduced o.delta checkSlack o.tolerance).mapError (Failure.within .reduce)
  pure res

def runWith (o : Options α) (lattice : Mat3 α) : Array StepEvent × Except (Failure α) (Result α) :=
  match o.fault with
  | some c => (#[], .error (.ofCause c))
  | none =>
    match lattice.validateFinite with
    | .error e => (#[], .error (.within .reduce e))
    | .ok () =>
      match GramSchmidt.compute lattice o.tolerance with
      | .error c => (#[], .error (.within .reduce (.ofCause c)))
      | .ok gs =>
        let start : Progress α := ⟨lattice, Mat3.identity, gs, 2, 0, 0⟩
        let (trace, r) := runSteps o o.maxSteps start #[]
        (trace, r.bind (finish o))

def reduce (lattice : Mat3 α) (settings : List (Setting α)) : Run α :=
  let o := Options.ofSettings settings
  let (trace, result) := runWith o lattice
  ⟨if o.trace then some trace else none, result⟩

end CrystalLattice.Reduction
