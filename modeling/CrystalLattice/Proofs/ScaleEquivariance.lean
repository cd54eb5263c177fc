import CrystalLattice.Proofs.Termination

/-!
# Scale equivariance of the reduction

The reduction compares only quantities of one degree. In an arithmetic where scaling by powers
of a factor is exact (`PowerScaling`), scaling the lattice scales the reduced basis and leaves
the integer matrix, counts and steps alone (`reduce_rescale`); the rationals are one.
-/

namespace CrystalLattice

/-- An arithmetic in which scaling by the powers of a fixed factor is exact and changes no
comparison and no finiteness. -/
structure PowerScaling (α : Type) [Scalar α] where
  scale : ℤ → α → α
  scale_zero : ∀ x, scale 0 x = x
  scale_scalarZero : ∀ k, scale k Scalar.zero = Scalar.zero
  scale_add : ∀ k x y, scale k (x + y) = scale k x + scale k y
  scale_sub : ∀ k x y, scale k (x - y) = scale k x - scale k y
  scale_mul : ∀ k l x y, scale (k + l) (x * y) = scale k x * scale l y
  scale_div : ∀ k l x y, scale (k - l) (x / y) = scale k x / scale l y
  le_scale : ∀ k x y, Scalar.le (scale k x) (scale k y) = Scalar.le x y
  lt_scale : ∀ k x y, Scalar.lt (scale k x) (scale k y) = Scalar.lt x y
  eq_scale : ∀ k x y, Scalar.eq (scale k x) (scale k y) = Scalar.eq x y
  isFinite_scale : ∀ k x, Scalar.isFinite (scale k x) = Scalar.isFinite x

namespace PowerScaling

variable {α : Type} [Scalar α] (σ : PowerScaling α)

theorem mul_scale (c x : α) (k : ℤ) : c * σ.scale k x = σ.scale k (c * x) := by
  have h := σ.scale_mul 0 k c x
  rw [zero_add, σ.scale_zero] at h
  exact h.symm

theorem scale_mul_right (x c : α) (k : ℤ) : σ.scale k x * c = σ.scale k (x * c) := by
  have h := σ.scale_mul k 0 x c
  rw [add_zero, σ.scale_zero] at h
  exact h.symm

theorem scale_div_scale (x y : α) (k : ℤ) : σ.scale k x / σ.scale k y = x / y := by
  rw [← σ.scale_div, sub_self, σ.scale_zero]

theorem eq_zero_scale (x : α) (k : ℤ) :
    Scalar.eq (σ.scale k x) Scalar.zero = Scalar.eq x Scalar.zero := by
  conv_lhs => rw [← σ.scale_scalarZero k]
  exact σ.eq_scale k x Scalar.zero

/-- Over the rationals, scaling by the powers of any positive number is exact. -/
def ratScaling (c : ℚ) (hc : 0 < c) : PowerScaling ℚ where
  scale k x := c ^ k * x
  scale_zero x := by rw [zpow_zero, one_mul]
  scale_scalarZero k := mul_zero (c ^ k)
  scale_add k x y := mul_add (c ^ k) x y
  scale_sub k x y := mul_sub (c ^ k) x y
  scale_mul k l x y := by
    change c ^ (k + l) * (x * y) = c ^ k * x * (c ^ l * y)
    rw [zpow_add₀ hc.ne']
    ring
  scale_div k l x y := by
    change c ^ (k - l) * (x / y) = c ^ k * x / (c ^ l * y)
    rw [zpow_sub₀ hc.ne', div_mul_div_comm]
  le_scale k x y := by
    change decide (c ^ k * x ≤ c ^ k * y) = decide (x ≤ y)
    exact decide_eq_decide.mpr (mul_le_mul_iff_of_pos_left (zpow_pos hc k))
  lt_scale k x y := by
    change decide (c ^ k * x < c ^ k * y) = decide (x < y)
    exact decide_eq_decide.mpr (mul_lt_mul_iff_of_pos_left (zpow_pos hc k))
  eq_scale k x y := by
    change decide (c ^ k * x = c ^ k * y) = decide (x = y)
    exact decide_eq_decide.mpr (mul_right_inj' (zpow_pos hc k).ne')
  isFinite_scale _ _ := rfl

end PowerScaling

namespace Vec3

section Map

variable {α β : Type} (f : α → β) (v : Vec3 α)

theorem get_map (j : Fin 3) : (v.map f).get j = f (v.get j) := by
  fin_cases j <;> rfl

end Map

variable {α : Type} [Scalar α] (σ : PowerScaling α) (k : ℤ)

theorem set_map (v : Vec3 α) (i : Fin 3) (a : α) :
    (v.map (σ.scale k)).set i (σ.scale k a) = (v.set i a).map (σ.scale k) := by
  fin_cases i <;> rfl

theorem zero_map_scale : (zero : Vec3 α).map (σ.scale k) = zero := by
  simp only [zero, map, σ.scale_scalarZero]

theorem add_map_scale (v w : Vec3 α) :
    (v.map (σ.scale k)).add (w.map (σ.scale k)) = (v.add w).map (σ.scale k) := by
  simp only [add, map, σ.scale_add]

theorem sub_map_scale (v w : Vec3 α) :
    (v.map (σ.scale k)).sub (w.map (σ.scale k)) = (v.sub w).map (σ.scale k) := by
  simp only [sub, map, σ.scale_sub]

theorem zero_add_map_scale (v : Vec3 α) :
    zero.add (v.map (σ.scale k)) = (zero.add v).map (σ.scale k) := by
  rw [← add_map_scale, zero_map_scale]

theorem scale_map_scale (c : α) (v : Vec3 α) :
    (v.map (σ.scale k)).scale c = (v.scale c).map (σ.scale k) := by
  simp only [scale, map, σ.mul_scale]

theorem dot_map_scale (l : ℤ) (v w : Vec3 α) :
    (v.map (σ.scale k)).dot (w.map (σ.scale l)) = σ.scale (k + l) (v.dot w) := by
  simp only [dot, map, σ.scale_add, σ.scale_mul]

theorem normSq_map_scale (v : Vec3 α) : (v.map (σ.scale k)).normSq = σ.scale (k + k) v.normSq :=
  dot_map_scale σ k k v v

end Vec3

namespace Mat3

variable {α : Type} [Scalar α] (σ : PowerScaling α) (k : ℤ)

def rescale (m : Mat3 α) : Mat3 α := m.mapRows (Vec3.map (σ.scale k))

theorem row_rescale (m : Mat3 α) (i : Fin 3) : (m.rescale σ k).row i = (m.row i).map (σ.scale k) := by
  fin_cases i <;> rfl

theorem setRow_rescale (m : Mat3 α) (i : Fin 3) (v : Vec3 α) :
    (m.rescale σ k).setRow i (v.map (σ.scale k)) = (m.setRow i v).rescale σ k := by
  fin_cases i <;> rfl

theorem swapRows_rescale (m : Mat3 α) (i j : Fin 3) :
    (m.rescale σ k).swapRows i j = (m.swapRows i j).rescale σ k := by
  rw [swapRows, row_rescale, row_rescale, setRow_rescale, setRow_rescale, swapRows]

theorem zero_rescale : (zero : Mat3 α).rescale σ k = zero := by
  simp only [zero, rescale, mapRows, Vec3.zero_map_scale]

theorem validateFinite_rescale (m : Mat3 α) : (m.rescale σ k).validateFinite = m.validateFinite := by
  simp only [validateFinite, findIdx?, Vec3.findIdx?, rescale, mapRows, Vec3.map, σ.isFinite_scale]

end Mat3

/-- The cause with its numbers scaled by their degree: the squared lengths of a degenerate
vector and of a failed Lovász test have degree two; every other number a cause holds comes
from the options or from the coefficients and has degree zero. -/
def Cause.rescale {α : Type} [Scalar α] (σ : PowerScaling α) (k : ℤ) : Cause α → Cause α
  | .degenerate i m => .degenerate i (σ.scale (k + k) m)
  | .lovaszViolated lower m bound => .lovaszViolated lower (σ.scale (k + k) m) (σ.scale (k + k) bound)
  | c => c

def Failure.rescale {α : Type} [Scalar α] (σ : PowerScaling α) (k : ℤ) (e : Failure α) :
    Failure α :=
  ⟨e.frames, e.cause.rescale σ k⟩

section Failures

variable {α : Type} [Scalar α] (σ : PowerScaling α) (k : ℤ)

@[simp] theorem Cause.kind_rescale (c : Cause α) : (c.rescale σ k).kind = c.kind := by
  cases c <;> rfl

theorem Cause.rescale_of_kind {c : Cause α} (h₁ : c.kind ≠ .degenerateLattice)
    (h₂ : c.kind ≠ .lovaszViolated) : c.rescale σ k = c := by
  cases c with
  | degenerate i m => exact absurd rfl h₁
  | lovaszViolated lower m bound => exact absurd rfl h₂
  | _ => rfl

@[simp] theorem Failure.kind_rescale (e : Failure α) : (e.rescale σ k).kind = e.kind :=
  Cause.kind_rescale σ k e.cause

@[simp] theorem Failure.rescale_within (f : Frame) (e : Failure α) :
    (e.within f).rescale σ k = (e.rescale σ k).within f := rfl

@[simp] theorem Failure.rescale_ofCause (c : Cause α) :
    (Failure.ofCause c).rescale σ k = .ofCause (c.rescale σ k) := rfl

theorem Failure.rescale_of_kind {e : Failure α} (h₁ : e.kind ≠ .degenerateLattice)
    (h₂ : e.kind ≠ .lovaszViolated) : e.rescale σ k = e := by
  rw [Failure.rescale, Cause.rescale_of_kind σ k h₁ h₂]

theorem Failure.rescale_of_validateFinite {m : Mat3 α} {e : Failure α}
    (h : m.validateFinite = .error e) : e.rescale σ k = e := by
  have hkind := Reduction.Mat3.validateFinite_error_kind h
  exact Failure.rescale_of_kind σ k (by rw [hkind]; decide) (by rw [hkind]; decide)

theorem Failure.rescale_of_inverse {m : Mat3 α} {e : Failure α} (h : m.inverse = .error e) :
    e.rescale σ k = e := by
  rcases Reduction.Mat3.inverse_error_kind h with hkind | hkind <;>
    exact Failure.rescale_of_kind σ k (by rw [hkind]; decide) (by rw [hkind]; decide)

end Failures

namespace Reduction

variable {α : Type} [Scalar α] (σ : PowerScaling α) (k : ℤ)

/-- The orthogonalisation of the scaled basis: orthogonal vectors of degree one, squared
lengths of degree two, and the same coefficients. -/
def GramSchmidt.rescale (g : GramSchmidt α) : GramSchmidt α :=
  ⟨g.ortho.rescale σ k, g.normSq.map (σ.scale (k + k)), g.coeff⟩

namespace GramSchmidt

@[simp] theorem normSq_rescale (g : GramSchmidt α) :
    (g.rescale σ k).normSq = g.normSq.map (σ.scale (k + k)) := rfl

theorem empty_rescale : (empty : GramSchmidt α).rescale σ k = empty := by
  simp only [empty, rescale, Mat3.zero_rescale, Vec3.zero_map_scale]

/-- The coefficients of a scaled vector against the scaled orthogonal vectors are the same:
each is a quotient of two numbers of degree two. -/
theorem coeffRow_rescale (g : GramSchmidt α) (a : Vec3 α) (i : Fin 3) :
    (g.rescale σ k).coeffRow (a.map (σ.scale k)) i = g.coeffRow a i := by
  have hcoeff : ∀ j : Fin 3, (a.map (σ.scale k)).dot ((g.rescale σ k).ortho.row j) /
      (g.rescale σ k).normSq.get j = a.dot (g.ortho.row j) / g.normSq.get j := fun j => by
    rw [rescale, Mat3.row_rescale, Vec3.dot_map_scale, Vec3.get_map, σ.scale_div_scale]
  simp only [coeffRow, hcoeff]

theorem projection_rescale (g : GramSchmidt α) (c : Vec3 α) (i : Fin 3) :
    (g.rescale σ k).projection c i = (g.projection c i).map (σ.scale k) := by
  fin_cases i
  · exact (Vec3.zero_map_scale σ k).symm
  all_goals simp only [projection, rescale, Mat3.row_rescale, Vec3.scale_map_scale,
    Vec3.zero_add_map_scale, Vec3.add_map_scale]

/-- One refresh of the scaled basis tests the same numbers of degree two against each other, so
it fails or succeeds alike, with the scaled orthogonalisation or the scaled squared length. -/
theorem refresh_rescale (g : GramSchmidt α) (basis : Mat3 α) (tol : α) (i : Fin 3) :
    (g.rescale σ k).refresh (basis.rescale σ k) tol i =
      ((g.refresh basis tol i).map (rescale σ k)).mapError (Cause.rescale σ k) := by
  have hb : ((basis.row i).map (σ.scale k)).sub
      ((g.rescale σ k).projection (g.coeffRow (basis.row i) i) i) =
      ((basis.row i).sub (g.projection (g.coeffRow (basis.row i) i) i)).map (σ.scale k) := by
    rw [projection_rescale, Vec3.sub_map_scale]
  simp only [refresh, Mat3.row_rescale, coeffRow_rescale, hb, Vec3.normSq_map_scale,
    σ.mul_scale, σ.le_scale, σ.eq_zero_scale]
  split
  · rfl
  · simp only [Except.map, Except.mapError, rescale, Mat3.setRow_rescale, Vec3.set_map]

theorem refreshFrom_rescale (g : GramSchmidt α) (basis : Mat3 α) (tol : α) (i : ℕ) :
    (g.rescale σ k).refreshFrom (basis.rescale σ k) tol i =
      ((g.refreshFrom basis tol i).map (rescale σ k)).mapError (Cause.rescale σ k) := by
  fun_induction g.refreshFrom basis tol i with
  | case1 g i h ih =>
    rw [refreshFrom, dif_pos h, refresh_rescale]
    cases hr : g.refresh basis tol ⟨i, h⟩ with
    | error c => rfl
    | ok g' => exact ih g'
  | case2 g i h =>
    rw [refreshFrom, dif_neg h]
    rfl

theorem compute_rescale (basis : Mat3 α) (tol : α) :
    compute (basis.rescale σ k) tol =
      ((compute basis tol).map (rescale σ k)).mapError (Cause.rescale σ k) := by
  rw [compute, ← empty_rescale σ k, refreshFrom_rescale, compute]

end GramSchmidt

/-- The state of a reduction of the scaled lattice: scaled basis and orthogonalisation, and
the same integer matrix, pointer and counts. -/
def Progress.rescale (p : Progress α) : Progress α :=
  { p with basis := p.basis.rescale σ k, gs := p.gs.rescale σ k }

def Result.rescale (r : Result α) : Result α := { r with reduced := r.reduced.rescale σ k }

def Run.rescale (r : Run α) : Run α :=
  ⟨r.trace, (r.result.map (Result.rescale σ k)).mapError (Failure.rescale σ k)⟩

namespace Progress

@[simp] theorem rescale_k (p : Progress α) : (p.rescale σ k).k = p.k := rfl
@[simp] theorem rescale_steps (p : Progress α) : (p.rescale σ k).steps = p.steps := rfl
@[simp] theorem rescale_swaps (p : Progress α) : (p.rescale σ k).swaps = p.swaps := rfl
@[simp] theorem rescale_mapping (p : Progress α) : (p.rescale σ k).mapping = p.mapping := rfl
@[simp] theorem rescale_basis (p : Progress α) : (p.rescale σ k).basis = p.basis.rescale σ k := rfl
@[simp] theorem rescale_gs (p : Progress α) : (p.rescale σ k).gs = p.gs.rescale σ k := rfl

@[simp] theorem mk_rescale (basis mapping : Mat3 α) (gs : GramSchmidt α) (ptr steps swaps : ℕ) :
    (⟨basis.rescale σ k, mapping, gs.rescale σ k, ptr, steps, swaps⟩ : Progress α) =
      (⟨basis, mapping, gs, ptr, steps, swaps⟩ : Progress α).rescale σ k := rfl

theorem subtractMultiple_rescale (p : Progress α) (r i : Fin 3) (q : α) :
    (p.rescale σ k).subtractMultiple r i q = (p.subtractMultiple r i q).rescale σ k := by
  simp only [subtractMultiple, rescale, Mat3.row_rescale, Vec3.scale_map_scale,
    Vec3.sub_map_scale, Mat3.setRow_rescale]
  rfl

theorem reduceAgainst_rescale (r : Fin 3) (acc : Progress α × ℕ) (i : Fin 3) :
    reduceAgainst r (acc.map (rescale σ k) id) i = (reduceAgainst r acc i).map (rescale σ k) id := by
  obtain ⟨p, updates⟩ := acc
  have hcoeff : (p.rescale σ k).gs.coeff = p.gs.coeff := rfl
  by_cases hsmall : Scalar.le (Scalar.abs (p.gs.coeff.get r i)) 0.5
  · simp only [reduceAgainst, Prod.map_apply, hcoeff, hsmall, if_true, id]
  · simp only [reduceAgainst, Prod.map_apply, hcoeff, hsmall, Bool.false_eq_true, if_false, id,
      subtractMultiple_rescale]

theorem sizeReduce_rescale (p : Progress α) (r : Fin 3) :
    (p.rescale σ k).sizeReduce r = (p.sizeReduce r).map (rescale σ k) id :=
  @List.foldl_hom _ _ _ (Prod.map (rescale σ k) id) _ _ (below r) (p, 0) (reduceAgainst_rescale σ k r)

theorem lovaszHolds_rescale (p : Progress α) (delta : α) (r lower : Fin 3) :
    (p.rescale σ k).lovaszHolds delta r lower = p.lovaszHolds delta r lower := by
  simp only [lovaszHolds, rescale, GramSchmidt.rescale, Vec3.get_map, σ.mul_scale, σ.le_scale]

theorem step_rescale (o : Options α) (p : Progress α) :
    (p.rescale σ k).step o =
      ((p.step o).map (Prod.map (rescale σ k) id)).mapError (Cause.rescale σ k) := by
  by_cases hk : 2 ≤ p.k ∧ p.k ≤ 3
  · rw [step, step, dif_pos (show 2 ≤ (p.rescale σ k).k ∧ (p.rescale σ k).k ≤ 3 from hk), dif_pos hk]
    dsimp only
    have hsr : Progress.sizeReduce ⟨(p.rescale σ k).basis, (p.rescale σ k).mapping,
          (p.rescale σ k).gs, (p.rescale σ k).k, (p.rescale σ k).steps + 1, (p.rescale σ k).swaps⟩
        ⟨(p.rescale σ k).k - 1, by simp only [rescale_k]; omega⟩ =
        (({ p with steps := p.steps + 1 } : Progress α).sizeReduce ⟨p.k - 1, by omega⟩).map
          (rescale σ k) id :=
      sizeReduce_rescale σ k { p with steps := p.steps + 1 } ⟨p.k - 1, by omega⟩
    rw [hsr]
    generalize Progress.sizeReduce { p with steps := p.steps + 1 } ⟨p.k - 1, by omega⟩ = q
    obtain ⟨p', u⟩ := q
    simp only [Prod.map_apply, id, rescale_k, rescale_steps, rescale_swaps, rescale_basis,
      rescale_gs, rescale_mapping, lovaszHolds_rescale]
    split
    · simp only [Except.map, Except.mapError, Prod.map_apply, id, mk_rescale]
    · simp only [Mat3.swapRows_rescale, GramSchmidt.refreshFrom_rescale]
      cases p'.gs.refreshFrom (p'.basis.swapRows ⟨p.k - 1, by omega⟩ ⟨p.k - 2, by omega⟩)
        o.tolerance (p.k - 2) with
      | error c => rfl
      | ok gs => rfl
  · rw [step, step, dif_neg (show ¬(2 ≤ (p.rescale σ k).k ∧ (p.rescale σ k).k ≤ 3) from hk),
      dif_neg hk]
    rfl

end Progress

theorem lovaszBound_rescale (g : GramSchmidt α) (delta : α) (i lower : Fin 3) :
    lovaszBound (g.rescale σ k) delta i lower = σ.scale (k + k) (lovaszBound g delta i lower) := by
  simp only [lovaszBound, GramSchmidt.rescale, Vec3.get_map, σ.mul_scale]

theorem lovaszFailure?_rescale (g : GramSchmidt α) (delta s : α) :
    lovaszFailure? (g.rescale σ k) delta s = lovaszFailure? g delta s := by
  simp only [lovaszFailure?, lovaszBound_rescale, GramSchmidt.normSq_rescale, Vec3.get_map,
    σ.scale_mul_right, σ.lt_scale]

/-- The check of a scaled basis answers alike; a Lovász failure reports the scaled lengths. -/
theorem checkReduced_rescale (basis : Mat3 α) (delta s tol : α) :
    checkReduced (basis.rescale σ k) delta s tol =
      (checkReduced basis delta s tol).mapError (Failure.rescale σ k) := by
  rw [checkReduced, checkReduced, Mat3.validateFinite_rescale, GramSchmidt.compute_rescale]
  cases deltaValid delta
  · rfl
  cases slackValid s
  · rfl
  cases hv : basis.validateFinite with
  | error e =>
    show Except.error (e.within .check) = .error ((e.within .check).rescale σ k)
    rw [Failure.rescale_within, Failure.rescale_of_validateFinite σ k hv]
  | ok u =>
    cases GramSchmidt.compute basis tol with
    | error c => rfl
    | ok g =>
      have hover : oversizedCoeff? (g.rescale σ k) s = oversizedCoeff? g s := rfl
      simp only [Bool.not_true, Bool.false_eq_true, if_false, Except.map, Except.mapError, bind,
        Except.bind, hover, lovaszFailure?_rescale]
      cases oversizedCoeff? g s with
      | some ij => rfl
      | none =>
        cases lovaszFailure? g delta s with
        | none => rfl
        | some pair =>
          simp only [GramSchmidt.normSq_rescale, Vec3.get_map, lovaszBound_rescale]
          rfl

/-- The loop on the scaled state makes the same steps, reports the same events, and ends in the
scaled state or with the scaled failure. Induction along the loop, one step at a time. -/
theorem runSteps_rescale (o : Options α) (budget : ℕ) (p : Progress α) (trace : Array StepEvent) :
    runSteps o budget (p.rescale σ k) trace =
      (runSteps o budget p trace).map id
        (fun r => (r.map (Progress.rescale σ k)).mapError (Failure.rescale σ k)) := by
  fun_induction runSteps o budget p trace with
  | case1 budget p trace hdone =>
    rw [runSteps_of_lt (show 3 < (p.rescale σ k).k from hdone)]
    rfl
  | case2 p trace hdone =>
    rw [runSteps, if_neg (show ¬(p.rescale σ k).k > 3 from hdone)]
    rfl
  | case3 p trace hdone budget c hc =>
    rw [runSteps, if_neg (show ¬(p.rescale σ k).k > 3 from hdone), Progress.step_rescale, hc]
    rfl
  | case4 p trace hdone budget p' ev hstep ih =>
    have hstep' : (p.rescale σ k).step o = .ok (p'.rescale σ k, ev) := by
      rw [Progress.step_rescale, hstep]
      rfl
    rw [runSteps_succ_of_step (show (p.rescale σ k).k ≤ 3 by simp only [Progress.rescale_k]; omega)
      hstep', ih]

theorem finish_rescale (o : Options α) (p : Progress α) :
    finish o (p.rescale σ k) =
      ((finish o p).map (Result.rescale σ k)).mapError (Failure.rescale σ k) := by
  rw [finish, finish]
  dsimp only
  rw [Progress.rescale_mapping, Progress.rescale_basis, checkReduced_rescale]
  cases hinv : p.mapping.round.inverse with
  | error e =>
    show Except.error (e.within .reduce) = .error ((e.within .reduce).rescale σ k)
    rw [Failure.rescale_within, Failure.rescale_of_inverse σ k hinv]
  | ok inverse =>
    cases checkReduced p.basis o.delta checkSlack o.tolerance with
    | error e => rfl
    | ok u => rfl

/-- A whole reduction of the scaled lattice under options whose fault, if any, reports no
length. -/
theorem runWith_rescale (o : Options α) (hfault : ∀ c, o.fault = some c → c.kind = .optionViolation)
    (lattice : Mat3 α) :
    runWith o (lattice.rescale σ k) =
      (runWith o lattice).map id
        (fun r => (r.map (Result.rescale σ k)).mapError (Failure.rescale σ k)) := by
  rw [runWith, runWith, Mat3.validateFinite_rescale, GramSchmidt.compute_rescale]
  cases hf : o.fault with
  | some c =>
    have hc : c.rescale σ k = c := by
      apply Cause.rescale_of_kind <;> rw [hfault c hf] <;> decide
    show (#[], Except.error (Failure.ofCause c)) = (#[], .error ((Failure.ofCause c).rescale σ k))
    rw [Failure.rescale_ofCause, hc]
  | none =>
    cases hv : lattice.validateFinite with
    | error e =>
      show (#[], Except.error (e.within .reduce)) = (#[], .error ((e.within .reduce).rescale σ k))
      rw [Failure.rescale_within, Failure.rescale_of_validateFinite σ k hv]
    | ok u =>
      cases GramSchmidt.compute lattice o.tolerance with
      | error c => rfl
      | ok gs =>
        simp only [Except.map, Except.mapError, Progress.mk_rescale, runSteps_rescale]
        obtain ⟨trace, r⟩ := runSteps o o.maxSteps ⟨lattice, Mat3.identity, gs, 2, 0, 0⟩ #[]
        cases r with
        | error e => rfl
        | ok p =>
          show (trace, finish o (p.rescale σ k)) = (trace, ((finish o p).map _).mapError _)
          rw [finish_rescale]

/-- Scale equivariance of the reduction: scaling a lattice by the `k`-th power of the factor
reduces it in the same steps, with the same integer matrix, inverse and counts, to the scaled
reduced basis; a failure is of the same kind, with its squared lengths scaled. -/
theorem reduce_rescale (lattice : Mat3 α) (settings : List (Setting α)) :
    reduce (lattice.rescale σ k) settings = (reduce lattice settings).rescale σ k := by
  rw [reduce, reduce,
    runWith_rescale σ k _ (fun c hc => Options.ofSettings_fault_kind hc) lattice]
  obtain ⟨trace, r⟩ := runWith (Options.ofSettings settings) lattice
  rfl

end Reduction

end CrystalLattice
