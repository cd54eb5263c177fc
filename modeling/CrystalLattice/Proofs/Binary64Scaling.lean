import Mathlib
import CrystalLattice.Proofs.UnboundedFloat

/-!
# Scaling a lattice by a power of two in binary64

Binary64 differs from the arithmetic with an unbounded exponent only by its range, where scaling
by `2 ^ k` is exact. Scaling commutes with reduction whenever both runs stay inside the range
(`reduce_scale_within_range`), and fails outside it (`scaledCube_reported_degenerate`).
-/

namespace CrystalLattice

section Map

variable {α β : Type} (f : α → β)

/-- The matrix with every entry mapped. -/
def Mat3.map (m : Mat3 α) : Mat3 β := m.mapRows (Vec3.map f)

theorem Mat3.map_injective {f : α → β} (hf : Function.Injective f) :
    Function.Injective (Mat3.map f) := by
  have hrow : ∀ v w : Vec3 α, v.map f = w.map f → v = w := by
    rintro ⟨x, y, z⟩ ⟨x', y', z'⟩ h
    simp only [Vec3.map, Vec3.mk.injEq] at h
    rw [hf h.1, hf h.2.1, hf h.2.2]
  rintro ⟨r₀, r₁, r₂⟩ ⟨s₀, s₁, s₂⟩ h
  simp only [Mat3.map, Mat3.mapRows, Mat3.mk.injEq] at h
  rw [hrow _ _ h.1, hrow _ _ h.2.1, hrow _ _ h.2.2]

def Cause.map : Cause α → Cause β
  | .rowCount n => .rowCount n
  | .length n => .length n
  | .nonFiniteEntry i j => .nonFiniteEntry i j
  | .nonFiniteComponent i => .nonFiniteComponent i
  | .singular => .singular
  | .badDelta d => .badDelta (f d)
  | .badMaxSteps n => .badMaxSteps n
  | .badTolerance t => .badTolerance (f t)
  | .badSlack s => .badSlack (f s)
  | .degenerate i m => .degenerate i (f m)
  | .diverged steps swaps => .diverged steps swaps
  | .notSizeReduced i j u => .notSizeReduced i j (f u)
  | .lovaszViolated lower m bound => .lovaszViolated lower (f m) (f bound)
  | .lengthMismatch coords species => .lengthMismatch coords species
  | .siteIndex i n => .siteIndex i n
  | .badCutoff c => .badCutoff (f c)
  | .emptyDocument => .emptyDocument
  | .documentType errors => .documentType errors
  | .documentSyntax message => .documentSyntax message
  | .missingFile path => .missingFile path
  | .notFolder path => .notFolder path
  | .runtimeFault message => .runtimeFault message

def Failure.map (e : Failure α) : Failure β := ⟨e.frames, e.cause.map f⟩

@[simp] theorem Failure.kind_map (e : Failure α) : (e.map f).kind = e.kind := by
  obtain ⟨frames, c⟩ := e
  cases c <;> rfl

def Reduction.Setting.map : Reduction.Setting α → Reduction.Setting β
  | .delta d => .delta (f d)
  | .maxSteps n => .maxSteps n
  | .tolerance t => .tolerance (f t)
  | .trace => .trace

def Reduction.Result.map (r : Reduction.Result α) : Reduction.Result β :=
  ⟨r.reduced.map f, r.mapping.map f, r.inverse.map f, r.steps, r.swaps⟩

def Reduction.Run.map (r : Reduction.Run α) : Reduction.Run β :=
  ⟨r.trace, (r.result.map (Reduction.Result.map f)).mapError (Failure.map f)⟩

end Map

deriving instance DecidableEq for Vec3, Mat3
deriving instance DecidableEq for Cause, Failure
deriving instance DecidableEq for Reduction.StepEvent, Reduction.Result, Reduction.Run

namespace Binary64

open Reduction UnboundedFloat

/-- The reduction of `lattice` under `settings` stays inside binary64's exponent range: it
computes what floating point with an unbounded exponent computes from the same input. -/
def ReducesWithinRange (lattice : Mat3 Float) (settings : List (Setting Float)) : Prop :=
  (reduce lattice settings).map ofFloat =
    reduce (lattice.map ofFloat) (settings.map (Setting.map ofFloat))

instance (lattice : Mat3 Float) (settings : List (Setting Float)) :
    Decidable (ReducesWithinRange lattice settings) :=
  inferInstanceAs (Decidable (_ = _))

/-- The cube of side `2 ^ 600` is exactly the unit cube scaled by `2 ^ 600`, yet the unit cube
reduces and the scaled cube is reported degenerate: its squared lengths overflow to infinity,
which passes the test `‖b*‖² ≤ tol · ‖b‖²`. -/
theorem scaledCube_reported_degenerate :
    ((Mat3.identity : Mat3 Float).map (Float.ofInt (2 ^ 600) * ·)).map ofFloat =
        ((Mat3.identity : Mat3 Float).map ofFloat).rescale unboundedScaling 600 ∧
      ((reduce (Mat3.identity : Mat3 Float) []).result.map fun _ => ()).mapError Failure.kind =
        .ok () ∧
      ((reduce ((Mat3.identity : Mat3 Float).map (Float.ofInt (2 ^ 600) * ·)) []).result.map
          fun _ => ()).mapError Failure.kind = .error .degenerateLattice := by
  decide +kernel

/-- Under both range conditions the two binary64 runs are the runs of the unbounded arithmetic,
where scaling is exact. -/
theorem reduce_map_scale_within_range {lattice lattice' : Mat3 Float}
    {settings : List (Setting Float)} {k : ℤ}
    (hscale : lattice'.map ofFloat = (lattice.map ofFloat).rescale unboundedScaling k)
    (hrange : ReducesWithinRange lattice settings) (hrange' : ReducesWithinRange lattice' settings) :
    (reduce lattice' settings).map ofFloat =
      ((reduce lattice settings).map ofFloat).rescale unboundedScaling k := by
  rw [hrange', hscale, reduce_rescale, ← hrange]

/-- Scaling by a power of two commutes with binary64 reduction inside the exponent range: both
runs report the same steps, and the results agree up to the scale or fail with one kind. -/
theorem reduce_scale_within_range {lattice lattice' : Mat3 Float} {settings : List (Setting Float)}
    {k : ℤ} (hscale : lattice'.map ofFloat = (lattice.map ofFloat).rescale unboundedScaling k)
    (hrange : ReducesWithinRange lattice settings) (hrange' : ReducesWithinRange lattice' settings) :
    (reduce lattice' settings).trace = (reduce lattice settings).trace ∧
      (∀ r, (reduce lattice settings).result = .ok r →
        ∃ r', (reduce lattice' settings).result = .ok r' ∧
          r'.reduced.map ofFloat = (r.reduced.map ofFloat).rescale unboundedScaling k ∧
          r'.mapping = r.mapping ∧ r'.inverse = r.inverse ∧ r'.steps = r.steps ∧
          r'.swaps = r.swaps) ∧
      (∀ e, (reduce lattice settings).result = .error e →
        ∃ e', (reduce lattice' settings).result = .error e' ∧ e'.kind = e.kind) := by
  have hrun := reduce_map_scale_within_range hscale hrange hrange'
  have htrace := congrArg Run.trace hrun
  have hresult := congrArg Run.result hrun
  refine ⟨htrace, fun r hr => ?_, fun e he => ?_⟩
  · cases hr' : (reduce lattice' settings).result with
    | error e' => simp [Run.map, Run.rescale, hr, hr', Except.map, Except.mapError] at hresult
    | ok r' =>
      simp only [Run.map, Run.rescale, hr, hr', Except.map, Except.mapError, Except.ok.injEq]
        at hresult
      have hsteps := congrArg Result.steps hresult
      have hswaps := congrArg Result.swaps hresult
      exact ⟨r', rfl, congrArg Result.reduced hresult,
        Mat3.map_injective ofFloat_injective (congrArg Result.mapping hresult),
        Mat3.map_injective ofFloat_injective (congrArg Result.inverse hresult), hsteps, hswaps⟩
  · cases hr' : (reduce lattice' settings).result with
    | ok r' => simp [Run.map, Run.rescale, he, hr', Except.map, Except.mapError] at hresult
    | error e' =>
      simp only [Run.map, Run.rescale, he, hr', Except.map, Except.mapError, Except.error.injEq]
        at hresult
      refine ⟨e', rfl, ?_⟩
      rw [← Failure.kind_map ofFloat e', hresult, Failure.kind_rescale, Failure.kind_map]

/-- A sheared lattice, reduced in six steps with three swaps, and its copy scaled by `2 ^ 100`:
both reductions stay inside the range, so they correspond. -/
theorem shearedLattice_reduce_scale_within_range :
    let L : Mat3 Float := ⟨⟨4, 1, 0⟩, ⟨1, 1, 0⟩, ⟨0, 3, 1⟩⟩
    let L' : Mat3 Float := L.map (Float.ofInt (2 ^ 100) * ·)
    L'.map ofFloat = (L.map ofFloat).rescale unboundedScaling 100 ∧
      ReducesWithinRange L [.trace] ∧ ReducesWithinRange L' [.trace] ∧
      (reduce L' [.trace]).trace = (reduce L [.trace]).trace ∧
      (∀ r, (reduce L [.trace]).result = .ok r →
        ∃ r', (reduce L' [.trace]).result = .ok r' ∧
          r'.reduced.map ofFloat = (r.reduced.map ofFloat).rescale unboundedScaling 100 ∧
          r'.mapping = r.mapping ∧ r'.inverse = r.inverse ∧ r'.steps = r.steps ∧
          r'.swaps = r.swaps) ∧
      (∀ e, (reduce L [.trace]).result = .error e →
        ∃ e', (reduce L' [.trace]).result = .error e' ∧ e'.kind = e.kind) := by
  have hscale : ((⟨⟨4, 1, 0⟩, ⟨1, 1, 0⟩, ⟨0, 3, 1⟩⟩ : Mat3 Float).map
      (Float.ofInt (2 ^ 100) * ·)).map ofFloat =
      ((⟨⟨4, 1, 0⟩, ⟨1, 1, 0⟩, ⟨0, 3, 1⟩⟩ : Mat3 Float).map ofFloat).rescale unboundedScaling 100 := by
    decide +kernel
  have hrange : ReducesWithinRange ⟨⟨4, 1, 0⟩, ⟨1, 1, 0⟩, ⟨0, 3, 1⟩⟩ [.trace] := by
    decide +kernel
  have hrange' : ReducesWithinRange ((⟨⟨4, 1, 0⟩, ⟨1, 1, 0⟩, ⟨0, 3, 1⟩⟩ : Mat3 Float).map
      (Float.ofInt (2 ^ 100) * ·)) [.trace] := by
    decide +kernel
  exact ⟨hscale, hrange, hrange', reduce_scale_within_range hscale hrange hrange'⟩

end Binary64

end CrystalLattice
