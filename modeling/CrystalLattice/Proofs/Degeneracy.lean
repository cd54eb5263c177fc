import CrystalLattice.Proofs.Termination
import CrystalLattice.Proofs.Binary64Scaling

/-!
# Degeneracy at tolerance zero

At tolerance zero the orthogonalisation fails exactly on a singular basis, and integer row
operations keep the basis independent, so a reduction fails on a degenerate lattice exactly when
its start does (`reduce_degenerate_iff_singular`). Away from tolerance zero, or in binary64, the
start does not decide it (`reduce_degenerate_after_start`).
-/

namespace CrystalLattice.Reduction

open Vec3

theorem Vec3.eq_zero_of_normSq_eq_zero {v : Vec3 ℚ} (h : v.normSq = 0) : v = Vec3.zero := by
  rw [normSq_def] at h
  have hx := mul_self_nonneg v.x
  have hy := mul_self_nonneg v.y
  have hz := mul_self_nonneg v.z
  ext <;> simp only [zero_x, zero_y, zero_z] <;> nlinarith

namespace GramSchmidt

variable {basis : Mat3 ℚ} {g : GramSchmidt ℚ}

/-- A basis vector that the orthogonal vectors before it reach exactly is a combination of the
basis vectors before it, so the basis is dependent. -/
theorem det_eq_zero_of_residual_eq_zero {i : Fin 3} (hprev : Orthogonalises basis g i)
    (c : Vec3 ℚ) (h : (basis.row i).sub (g.projection c i) = Vec3.zero) : basis.det = 0 := by
  -- the vectors before `i` are their orthogonal vectors recombined: `b₀ = b*₀`,
  -- `b₁ = b*₁ + μ₁₀ b*₀`
  have h0 := fun h => (hprev 0 h).decompose
  have h1 := fun h => (hprev 1 h).decompose
  obtain ⟨⟨a₀, a₁, a₂⟩, ⟨b₀, b₁, b₂⟩, ⟨c₀, c₁, c₂⟩⟩ := basis
  fin_cases i <;> simp [projection, Vec3.ext_iff, sub_eq_zero] at h h0 h1
  · -- vector 0 is zero
    obtain ⟨rfl, rfl, rfl⟩ := h
    simp [Mat3.det, Mat3.get_def]
  · -- vector 1 is a multiple of vector 0
    obtain ⟨rfl, rfl, rfl⟩ := h
    obtain ⟨rfl, rfl, rfl⟩ := h0
    simp only [Mat3.det, Mat3.get_def, Mat3.row_zero, Mat3.row_one, Mat3.row_two, get_zero,
      get_one, get_two]
    ring
  · -- vector 2 is a combination of vectors 0 and 1
    obtain ⟨rfl, rfl, rfl⟩ := h
    obtain ⟨rfl, rfl, rfl⟩ := h0
    obtain ⟨rfl, rfl, rfl⟩ := h1
    simp only [Mat3.det, Mat3.get_def, Mat3.row_zero, Mat3.row_one, Mat3.row_two, get_zero,
      get_one, get_two]
    ring

theorem refresh_eq_ok_of_det_ne_zero {i : Fin 3} (hdet : basis.det ≠ 0)
    (hprev : Orthogonalises basis g i) : ∃ g', g.refresh basis 0 i = .ok g' := by
  simp only [refresh, scalar_le_rat, scalar_eq_rat, scalar_zero_rat, zero_mul]
  split
  · rename_i hfail
    have hm : ((basis.row i).sub (g.projection (g.coeffRow (basis.row i) i) i)).normSq = 0 := by
      simp only [Bool.or_eq_true, decide_eq_true_eq] at hfail
      rcases hfail with hle | heq
      · exact le_antisymm hle (normSq_nonneg _)
      · exact heq
    exact absurd (det_eq_zero_of_residual_eq_zero hprev _ (Vec3.eq_zero_of_normSq_eq_zero hm))
      hdet
  · exact ⟨_, rfl⟩

theorem refreshFrom_eq_ok_of_det_ne_zero {i : ℕ} (hdet : basis.det ≠ 0)
    (hprev : Orthogonalises basis g i) : ∃ g', g.refreshFrom basis 0 i = .ok g' := by
  induction g, i using refreshFrom.induct with
  | case1 g i hi ih =>
    obtain ⟨g₁, h₁⟩ := refresh_eq_ok_of_det_ne_zero (i := ⟨i, hi⟩) hdet hprev
    obtain ⟨g', h'⟩ := ih g₁ (refresh_orthogonalises hprev h₁)
    refine ⟨g', ?_⟩
    rw [refreshFrom, dif_pos hi]
    simp only [h₁, bind, Except.bind]
    exact h'
  | case2 g i hi =>
    rw [refreshFrom, dif_neg hi]
    exact ⟨g, rfl⟩

theorem compute_eq_ok_of_det_ne_zero (hdet : basis.det ≠ 0) :
    ∃ g, compute basis 0 = .ok g :=
  refreshFrom_eq_ok_of_det_ne_zero hdet fun _ hi => absurd hi (Nat.not_lt_zero _)

theorem compute_error_iff_det_eq_zero : (∃ c, compute basis 0 = .error c) ↔ basis.det = 0 := by
  constructor
  · rintro ⟨c, hc⟩
    by_contra hdet
    obtain ⟨g, hg⟩ := compute_eq_ok_of_det_ne_zero hdet
    rw [hg] at hc
    cases hc
  · intro hdet
    cases hc : compute basis 0 with
    | error c => exact ⟨c, rfl⟩
    | ok g => exact absurd hdet (compute_orthogonalises hc).det_ne_zero

end GramSchmidt

open GramSchmidt

section Failures

variable {α : Type} [Scalar α]

/-- A step fails only in a swap, where the refresh of the exchanged basis from the lower vector
on finds a degenerate vector. -/
theorem Progress.step_eq_error {o : Options α} {p : Progress α} {c : Cause α}
    (h : p.step o = .error c) :
    ∃ (r lower : Fin 3) (p₁ : Progress α), r.val = p.k - 1 ∧ lower.val + 1 = r.val ∧
      p₁ = (sizeReduce { p with steps := p.steps + 1 } r).1 ∧
      p₁.gs.refreshFrom (p₁.basis.swapRows r lower) o.tolerance lower.val = .error c := by
  by_cases hk : 2 ≤ p.k ∧ p.k ≤ 3
  · refine ⟨⟨p.k - 1, by omega⟩, ⟨p.k - 2, by omega⟩, _, rfl, by simp; omega, rfl, ?_⟩
    simp only [Progress.step, dif_pos hk] at h
    split at h
    · cases h
    · rcases bind_eq_error h with hg | ⟨gs, -, hpure⟩
      · exact hg
      · cases hpure
  · simp only [Progress.step, dif_neg hk] at h
    cases h

/-- The check fails on a degenerate vector only where the orthogonalisation of its basis
fails. -/
theorem checkReduced_degenerate {basis : Mat3 α} {δ s tol : α} {e : Failure α}
    (h : checkReduced basis δ s tol = .error e) (hk : e.kind = .degenerateLattice) :
    ∃ c, GramSchmidt.compute basis tol = .error c := by
  obtain ⟨e₀, hb, rfl⟩ := mapError_eq_error h
  rw [Failure.kind_within] at hk
  dsimp only at hb
  split at hb
  · cases hb
    cases hk
  split at hb
  · cases hb
    cases hk
  rcases bind_eq_error hb with h₃ | ⟨-, -, hb⟩
  · simp [Mat3.validateFinite_error_kind h₃] at hk
  rcases bind_eq_error hb with h₄ | ⟨g, -, hb⟩
  · obtain ⟨c, hc, rfl⟩ := mapError_eq_error h₄
    exact ⟨c, hc⟩
  split at hb
  · cases hb
    cases hk
  · split at hb <;> cases hb
    cases hk

end Failures

section Exact

variable {o : Options ℚ}

/-- At tolerance zero a step from an exact orthogonalisation never fails: size reduction and
the exchange keep the basis independent, so the refresh after a swap succeeds. -/
theorem Progress.step_ne_error (ht : o.tolerance = 0) {p : Progress ℚ}
    (horth : Orthogonalises p.basis p.gs 3) (c : Cause ℚ) : p.step o ≠ .error c := by
  intro h
  obtain ⟨r, lower, p₁, hr, hlower, hp₁, hg⟩ := Progress.step_eq_error h
  have hred : ReducedFrom r { p with steps := p.steps + 1 } p₁ :=
    hp₁ ▸ Progress.sizeReduce_reducedFrom _ r
  have horth₁ : Orthogonalises p₁.basis p₁.gs 3 := hred.orthogonalises horth
  have hlt : lower < r := Fin.lt_def.mpr (by omega)
  have hdet : (p₁.basis.swapRows r lower).det ≠ 0 := by
    rw [Mat3.det_swapRows _ (Fin.ne_of_gt hlt)]
    exact neg_ne_zero.mpr horth₁.det_ne_zero
  obtain ⟨g, hok⟩ := refreshFrom_eq_ok_of_det_ne_zero hdet (horth₁.swapRows hlt)
  rw [ht, hok] at hg
  cases hg

/-- At tolerance zero a run of the loop from a state of the invariant fails only for having
spent its budget. -/
theorem runSteps_error_kind_of_tolerance_zero (ht : o.tolerance = 0) (budget : ℕ) :
    ∀ (p : Progress ℚ) (trace trace' : Array StepEvent) (e : Failure ℚ),
      LoopInvariant o.delta p → runSteps o budget p trace = (trace', .error e) →
        e.kind = .divergence := by
  induction budget with
  | zero =>
    intro p trace trace' e _ h
    by_cases hk : 3 < p.k
    · rw [runSteps_of_lt hk] at h
      cases h
    · simp only [runSteps, if_neg (show ¬p.k > 3 from hk), Prod.mk.injEq, Except.error.injEq]
        at h
      rw [← h.2]
      rfl
  | succ n ih =>
    intro p trace trace' e hinv h
    by_cases hk : 3 < p.k
    · rw [runSteps_of_lt hk] at h
      cases h
    cases hs : p.step o with
    | error c => exact absurd hs (Progress.step_ne_error ht hinv.orthogonalises c)
    | ok q =>
      obtain ⟨p', ev⟩ := q
      rw [runSteps_succ_of_step (by omega) hs] at h
      exact ih p' _ trace' e (step_loopInvariant hinv (by omega) hs) h

/-- At tolerance zero, finishing from an exact orthogonalisation never finds a degenerate
vector: the closing check orthogonalises the same independent basis afresh. -/
theorem finish_ne_degenerate (ht : o.tolerance = 0) {p : Progress ℚ} {e : Failure ℚ}
    (horth : Orthogonalises p.basis p.gs 3) (h : finish o p = .error e) :
    e.kind ≠ .degenerateLattice := by
  intro hk
  rcases bind_eq_error h with h₁ | ⟨inv, -, h₂⟩
  · obtain ⟨e₀, he₀, rfl⟩ := mapError_eq_error h₁
    rcases Mat3.inverse_error_kind he₀ with hk₀ | hk₀ <;> simp [hk₀] at hk
  · rcases bind_eq_error h₂ with h₃ | ⟨-, -, h₄⟩
    · obtain ⟨e₀, he₀, rfl⟩ := mapError_eq_error h₃
      obtain ⟨c, hc⟩ := checkReduced_degenerate he₀ (by simpa using hk)
      obtain ⟨g, hg⟩ := compute_eq_ok_of_det_ne_zero horth.det_ne_zero
      rw [ht, hg] at hc
      cases hc
    · cases h₄

/-- At tolerance zero, with valid settings, a reduction fails on a degenerate lattice exactly
when its input is singular. -/
theorem reduce_degenerate_iff_singular {lattice : Mat3 ℚ} {settings : List (Setting ℚ)}
    (hf : (Options.ofSettings settings).fault = none)
    (ht : (Options.ofSettings settings).tolerance = 0) :
    ((∃ e, (reduce lattice settings).result = .error e ∧ e.kind = .degenerateLattice) ↔
        ∃ c, GramSchmidt.compute lattice 0 = .error c) ∧
      ((∃ c, GramSchmidt.compute lattice 0 = .error c) ↔ lattice.det = 0) := by
  refine ⟨⟨?_, ?_⟩, compute_error_iff_det_eq_zero⟩
  · rintro ⟨e, he, hk⟩
    by_contra hstart
    obtain ⟨gs, hgs⟩ := compute_eq_ok_of_det_ne_zero
      fun h0 => hstart (compute_error_iff_det_eq_zero.mpr h0)
    rw [reduce_result] at he
    generalize Options.ofSettings settings = o at he hf ht
    simp only [runWith, hf, Mat3.validateFinite_rat, ht, hgs] at he
    rcases hrun : runSteps o o.maxSteps ⟨lattice, Mat3.identity, gs, 2, 0, 0⟩ #[] with ⟨trace, r⟩
    rw [hrun] at he
    cases r with
    | error e' =>
      cases he
      have := runSteps_error_kind_of_tolerance_zero ht o.maxSteps _ _ _ _
        (loopInvariant_start o.delta (ht ▸ hgs)) hrun
      rw [this] at hk
      cases hk
    | ok p =>
      have hinv := (runSteps_loopInvariant (loopInvariant_start o.delta (ht ▸ hgs)) hrun).1
      exact finish_ne_degenerate ht hinv.orthogonalises he hk
  · rintro ⟨c, hc⟩
    refine ⟨.within .reduce (.ofCause c), ?_, by simpa using compute_error_kind hc⟩
    rw [reduce_result]
    simp only [runWith, hf, Mat3.validateFinite_rat, ht, hc]

/-- A singular integer lattice: at tolerance zero the start finds its last vector degenerate. -/
theorem singularLattice_reduce_degenerate_iff_singular :
    (Options.ofSettings [.tolerance (0 : ℚ)]).fault = none ∧
      (Options.ofSettings [.tolerance (0 : ℚ)]).tolerance = 0 ∧
      ((∃ e, (reduce (⟨⟨15, 7, -9⟩, ⟨-3, -2, 0⟩, ⟨-3, -1, 3⟩⟩ : Mat3 ℚ) [.tolerance 0]).result =
          .error e ∧ e.kind = .degenerateLattice) ↔
        ∃ c, GramSchmidt.compute (⟨⟨15, 7, -9⟩, ⟨-3, -2, 0⟩, ⟨-3, -1, 3⟩⟩ : Mat3 ℚ) 0 = .error c) ∧
      ((∃ c, GramSchmidt.compute (⟨⟨15, 7, -9⟩, ⟨-3, -2, 0⟩, ⟨-3, -1, 3⟩⟩ : Mat3 ℚ) 0 = .error c) ↔
        (⟨⟨15, 7, -9⟩, ⟨-3, -2, 0⟩, ⟨-3, -1, 3⟩⟩ : Mat3 ℚ).det = 0) := by
  have hf : (Options.ofSettings [.tolerance (0 : ℚ)]).fault = none := by decide
  have ht : (Options.ofSettings [.tolerance (0 : ℚ)]).tolerance = 0 := by decide
  exact ⟨hf, ht, reduce_degenerate_iff_singular hf ht⟩

/-- Away from tolerance zero, or in binary64, the start does not decide degeneracy: a lengthened
vector fails the closing check, and a singular lattice fails only in a refresh. -/
theorem reduce_degenerate_after_start :
    (GramSchmidt.compute (⟨⟨500, 0, 0⟩, ⟨250, 10, 0⟩, ⟨0, 6, 5⟩⟩ : Mat3 ℚ) 0.001).isOk ∧
      (reduce (⟨⟨500, 0, 0⟩, ⟨250, 10, 0⟩, ⟨0, 6, 5⟩⟩ : Mat3 ℚ)
          [.delta 0.2501, .tolerance 0.001]).result =
        .error (.within .reduce (.within .check (.ofCause (.degenerate 2 25)))) ∧
      (GramSchmidt.compute (⟨⟨500, 0, 0⟩, ⟨250, 10, 0⟩, ⟨0, 6, 5⟩⟩ : Mat3 Float) 0.001).isOk ∧
      (reduce (⟨⟨500, 0, 0⟩, ⟨250, 10, 0⟩, ⟨0, 6, 5⟩⟩ : Mat3 Float)
          [.delta 0.2501, .tolerance 0.001]).result =
        .error (.within .reduce (.within .check (.ofCause (.degenerate 2 25)))) ∧
      (GramSchmidt.compute (⟨⟨15, 7, -9⟩, ⟨-3, -2, 0⟩, ⟨-3, -1, 3⟩⟩ : Mat3 Float) 0).isOk ∧
      (reduce (⟨⟨15, 7, -9⟩, ⟨-3, -2, 0⟩, ⟨-3, -1, 3⟩⟩ : Mat3 Float) [.tolerance 0]).result =
        .error (.within .reduce (.ofCause (.degenerate 2 0))) := by
  decide +kernel

end Exact

end CrystalLattice.Reduction
