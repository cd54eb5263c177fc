import Mathlib
import CrystalLattice.Proofs.ClosingMargin
import CrystalLattice.Proofs.Settings

/-!
# Conditioned reductions pass their own check

The error analysis of the last pass (`Progress.exitNear`, `Progress.ExitNear.check_passes`) asks
that the basis at the head of that pass be well conditioned in exact arithmetic. That condition
is decidable: `Mat3.conditioned` orthogonalises the rationals the floats stand for and compares
squared lengths, and `Mat3.wellConditioned_of_conditioned` shows that it gives
`Mat3.WellConditioned`. A reduction in binary64 whose pass heads are all conditioned never fails
its own closing check (`Reduction.reduce_passes_own_check_of_conditioned`); the drift it does
allow on other bases is `Reduction.nearlyDependentLattice_reduce_rejects_own_output`.
-/

namespace CrystalLattice

open scoped InnerProductSpace
open CrystalLattice.Euclidean

namespace Vec3

/-- The vector of `ℝ³` a vector of rationals stands for. -/
def ratReal (v : Vec3 ℚ) : EuclideanSpace ℝ (Fin 3) :=
  WithLp.toLp _ ![(v.x : ℝ), (v.y : ℝ), (v.z : ℝ)]

@[simp] theorem ratReal_apply_zero (v : Vec3 ℚ) : v.ratReal 0 = v.x := rfl

@[simp] theorem ratReal_apply_one (v : Vec3 ℚ) : v.ratReal 1 = v.y := rfl

@[simp] theorem ratReal_apply_two (v : Vec3 ℚ) : v.ratReal 2 = v.z := rfl

@[simp] theorem ratReal_zero : (zero : Vec3 ℚ).ratReal = 0 := by
  ext i
  fin_cases i <;> simp

@[simp] theorem ratReal_add (v w : Vec3 ℚ) : (v.add w).ratReal = v.ratReal + w.ratReal := by
  ext i
  fin_cases i <;> simp

@[simp] theorem ratReal_sub (v w : Vec3 ℚ) : (v.sub w).ratReal = v.ratReal - w.ratReal := by
  ext i
  fin_cases i <;> simp

@[simp] theorem ratReal_scale (a : ℚ) (v : Vec3 ℚ) : (v.scale a).ratReal = (a : ℝ) • v.ratReal := by
  ext i
  fin_cases i <;> simp

theorem inner_ratReal (v w : Vec3 ℚ) : ⟪v.ratReal, w.ratReal⟫_ℝ = ((v.dot w : ℚ) : ℝ) := by
  simp [ratReal, PiLp.inner_apply, Fin.sum_univ_three, dot_def]
  ring

theorem norm_ratReal_sq (v : Vec3 ℚ) : ‖v.ratReal‖ ^ 2 = ((v.normSq : ℚ) : ℝ) := by
  rw [← real_inner_self_eq_norm_sq, inner_ratReal, normSq_eq_dot]

end Vec3

namespace Mat3

/-- The rationals a matrix of floats stands for, row by row. -/
def values (m : Mat3 Float) : Mat3 ℚ := m.mapRows (Vec3.map Binary64.value)

variable {m : Mat3 Float}

theorem real_row (m : Mat3 Float) (i : Fin 3) : (m.row i).real = (m.values.row i).ratReal := by
  fin_cases i <;> rfl

section Bridge

variable {g : Reduction.GramSchmidt ℚ} {tol : ℚ}
  (hc : Reduction.GramSchmidt.compute m.values tol = .ok g)
include hc

/-- The orthogonalisation computed in rational arithmetic from the values of a basis of floats
is the exact one, vector by vector, together with its squared lengths. -/
theorem exactOrtho_of_compute (j : Fin 3) :
    m.exactOrtho j = (g.ortho.row j).ratReal ∧ ‖m.exactOrtho j‖ ^ 2 = (g.normSq.get j : ℝ) := by
  have hr := Reduction.GramSchmidt.compute_recurrent hc
  have hn : ∀ j : Fin 3, m.exactOrtho j = (g.ortho.row j).ratReal →
      ‖m.exactOrtho j‖ ^ 2 = (g.normSq.get j : ℝ) := fun j hj => by
    rw [(hr j j.isLt).normSq_get, ← Vec3.norm_ratReal_sq, hj]
  -- the coefficient of row `i` against an earlier orthogonal vector that is already exact
  have hμ : ∀ i j : Fin 3, j < i → m.exactOrtho j = (g.ortho.row j).ratReal →
      (((g.coeff.row i).get j : ℚ) : ℝ) = coeff (m.row i).real (m.exactOrtho j) := by
    intro i j hji hj
    rw [(hr i i.isLt).coeff_row]
    simp only [Reduction.GramSchmidt.coeffRow, Vec3.get_ofFn, if_pos hji]
    rw [Rat.cast_div, ← Vec3.inner_ratReal, ← hj, ← hn j hj, real_row]
    rfl
  have e₀ : m.exactOrtho 0 = (g.ortho.row 0).ratReal := by
    rw [(hr 0 (by decide)).ortho_row]
    change (m.row 0).real = ((m.values.row 0).sub Vec3.zero).ratReal
    rw [Vec3.ratReal_sub, Vec3.ratReal_zero, sub_zero, real_row]
  have e₁ : m.exactOrtho 1 = (g.ortho.row 1).ratReal := by
    have h₁₀ := hμ 1 0 (by decide) e₀
    rw [(hr 1 (by decide)).ortho_row]
    change ortho₁ (m.row 0).real (m.row 1).real =
      ((m.values.row 1).sub (Vec3.zero.add ((g.ortho.row 0).scale ((g.coeff.row 1).get 0)))).ratReal
    rw [Vec3.ratReal_sub, Vec3.ratReal_add, Vec3.ratReal_zero, zero_add, Vec3.ratReal_scale, h₁₀,
      ← real_row, ← e₀]
    rfl
  have e₂ : m.exactOrtho 2 = (g.ortho.row 2).ratReal := by
    have h₂₀ := hμ 2 0 (by decide) e₀
    have h₂₁ := hμ 2 1 (by decide) e₁
    rw [(hr 2 (by decide)).ortho_row]
    change ortho₂ (m.row 0).real (m.row 1).real (m.row 2).real =
      ((m.values.row 2).sub ((Vec3.zero.add ((g.ortho.row 0).scale ((g.coeff.row 2).get 0))).add
        ((g.ortho.row 1).scale ((g.coeff.row 2).get 1)))).ratReal
    rw [Vec3.ratReal_sub, Vec3.ratReal_add, Vec3.ratReal_add, Vec3.ratReal_zero, zero_add,
      Vec3.ratReal_scale, Vec3.ratReal_scale, h₂₀, h₂₁, ← real_row, ← e₀, ← e₁, sub_add_eq_sub_sub]
    rfl
  fin_cases j
  · exact ⟨e₀, hn 0 e₀⟩
  · exact ⟨e₁, hn 1 e₁⟩
  · exact ⟨e₂, hn 2 e₂⟩

end Bridge

/-- Whether a basis of floats is conditioned for the error analysis of a pass, decided in exact
rational arithmetic: its entries are finite, and the rationals they stand for orthogonalise, with
every squared row length at most four times every squared orthogonal length and all of these
within `[2⁻¹⁰⁰, 2¹⁰⁰]`. -/
def conditioned (m : Mat3 Float) : Bool :=
  decide (∀ i j : Fin 3, (m.get i j).isFinite = true) &&
    match Reduction.GramSchmidt.compute m.values 0 with
    | .ok g => decide (∀ i j : Fin 3, (m.values.row i).normSq ≤ 4 * g.normSq.get j ∧
        (m.values.row i).normSq ≤ 2 ^ 100 ∧ 1 / 2 ^ 100 ≤ g.normSq.get j)
    | .error _ => false

/-- A conditioned basis is well conditioned: the squared lengths compared in rationals are
those of the exact rows and orthogonal vectors. -/
theorem wellConditioned_of_conditioned (h : m.conditioned = true) : m.WellConditioned := by
  unfold conditioned at h
  rw [Bool.and_eq_true, decide_eq_true_eq] at h
  obtain ⟨hfin, h⟩ := h
  split at h
  case h_2 => cases h
  rename_i g hc
  rw [decide_eq_true_eq] at h
  have hy : ∀ j, ‖m.exactOrtho j‖ ^ 2 = (g.normSq.get j : ℝ) := fun j =>
    (exactOrtho_of_compute hc j).2
  have ha : ∀ i, ‖(m.row i).real‖ ^ 2 = ((m.values.row i).normSq : ℝ) := fun i => by
    rw [real_row, Vec3.norm_ratReal_sq]
  refine ⟨fun i => ⟨hfin i 0, hfin i 1, hfin i 2⟩, fun i j => ?_, fun j => ?_, fun i => ?_⟩
  · have hq : (((m.values.row i).normSq : ℚ) : ℝ) ≤ ((4 * g.normSq.get j : ℚ) : ℝ) :=
      Rat.cast_le.mpr (h i j).1
    rw [← pow_le_pow_iff_left₀ (norm_nonneg _) (by positivity) two_ne_zero, mul_pow, ha, hy]
    push_cast at hq
    linarith
  · have hq : ((1 / 2 ^ 100 : ℚ) : ℝ) ≤ ((g.normSq.get j : ℚ) : ℝ) := Rat.cast_le.mpr (h 0 j).2.2
    rw [← pow_le_pow_iff_left₀ (by positivity) (norm_nonneg _) two_ne_zero, hy]
    push_cast at hq
    calc (1 / 2 ^ 50 : ℝ) ^ 2 = 1 / 2 ^ 100 := by norm_num
      _ ≤ _ := hq
  · have hq : (((m.values.row i).normSq : ℚ) : ℝ) ≤ ((2 ^ 100 : ℚ) : ℝ) :=
      Rat.cast_le.mpr (h i 0).2.1
    rw [← pow_le_pow_iff_left₀ (norm_nonneg _) (by positivity) two_ne_zero, ha]
    push_cast at hq
    calc _ ≤ (2 : ℝ) ^ 100 := hq
      _ = (2 ^ 50) ^ 2 := by norm_num

end Mat3

namespace Reduction

open GramSchmidt

section Check

variable {α : Type} [Scalar α] {basis : Mat3 α} {δ s tol : α} {e : Failure α}

/-- The closing check reports an oversized coefficient or a Lovász pair out of order only when
the orthogonalisation it computes has one. -/
theorem checkReduced_kind_of_passes
    (hpass : ∀ g, compute basis tol = .ok g → oversizedCoeff? g s = none ∧
      lovaszFailure? g δ s = none)
    (h : checkReduced basis δ s tol = .error e) :
    e.kind ≠ .notSizeReduced ∧ e.kind ≠ .lovaszViolated := by
  obtain ⟨e₀, hb, rfl⟩ := mapError_eq_error h
  dsimp only at hb
  rw [Failure.kind_within]
  split at hb
  · cases hb
    simp [Failure.kind, Failure.ofCause, Cause.kind]
  split at hb
  · cases hb
    simp [Failure.kind, Failure.ofCause, Cause.kind]
  rcases bind_eq_error hb with h₃ | ⟨-, -, hb⟩
  · simp [Mat3.validateFinite_error_kind h₃]
  rcases bind_eq_error hb with h₄ | ⟨g, hg, hb⟩
  · obtain ⟨c, hc, rfl⟩ := mapError_eq_error h₄
    simp [GramSchmidt.compute_error_kind hc]
  -- the orthogonalisation the check computes passes both of its tests
  obtain ⟨hov, hlov⟩ := hpass g (mapError_eq_ok hg)
  simp only [hov, hlov] at hb
  cases hb

end Check

section Reduce

variable {lattice : Mat3 Float} {settings : List (Setting Float)}

/-- A reduction in binary64 whose pass heads are all conditioned never fails its own closing
check: it returns a result, or fails for a reason other than a coefficient too large or a
Lovász pair out of order. Only the head of the last pass matters: the two advances from it
keep every coefficient within `2⁻³³` of the one the check recomputes and every Lovász bound
within `2⁻³¹` of it, relative, inside the slack of the check. -/
theorem reduce_passes_own_check_of_conditioned
    (hheads : ∀ gs n p, compute lattice (Options.ofSettings settings).tolerance = .ok gs →
      (⟨lattice, Mat3.identity, gs, 2, 0, 0⟩ : Progress Float).afterSteps
        (Options.ofSettings settings) n = some p → p.k = 2 → p.basis.conditioned = true) :
    (∃ res, (reduce lattice settings).result = .ok res) ∨
      ∃ e, (reduce lattice settings).result = .error e ∧ e.kind ≠ .notSizeReduced ∧
        e.kind ≠ .lovaszViolated := by
  rcases hr : (reduce lattice settings).result with e | res
  case ok => exact .inl ⟨res, rfl⟩
  refine .inr ⟨e, rfl, ?_⟩
  rw [reduce_result] at hr
  have hδ := Options.deltaValid_ofSettings settings
  cases hf : (Options.ofSettings settings).fault with
  | some c =>
    simp only [runWith, hf] at hr
    cases hr
    simp [Options.ofSettings_fault_kind hf]
  | none =>
  generalize Options.ofSettings settings = o at hr hf hheads hδ
  cases hv : lattice.validateFinite with
  | error e₀ =>
    simp only [runWith, hf, hv] at hr
    cases hr
    simp [Mat3.validateFinite_error_kind hv]
  | ok u =>
  cases hg : compute lattice o.tolerance with
  | error c =>
    rw [runWith_of_compute_error hf hv hg] at hr
    cases hr
    simp [compute_error_kind hg]
  | ok gs =>
  rw [runWith_of_compute hf hv hg] at hr
  rcases hrun : runSteps o o.maxSteps ⟨lattice, Mat3.identity, gs, 2, 0, 0⟩ #[] with ⟨trace, r⟩
  rw [hrun] at hr
  cases r with
  | error e' =>
    cases hr
    rcases runSteps_error_kind _ _ _ _ _ hrun with hk | hk <;> simp [hk]
  | ok q =>
  -- the loop left through the head of its last pass and two advances from it
  obtain ⟨j, -, hq, hqk, -⟩ := runSteps_eq_ok_afterSteps _ hrun
  obtain ⟨n, p, p₃, ev₂, ev₃, hp, hpk, h₂, hk₃, h₃⟩ := Progress.afterSteps_exit j rfl hq hqk
  have hcur := Progress.afterSteps_current n (Progress.start_current hg) hp
  have hA := Mat3.wellConditioned_of_conditioned (hheads gs n p hg hp hpk)
  have hG : NearExact p.basis p.gs := (hcur.head hpk).nearExact hA.balanced
  have hx := Progress.exitNear hcur hpk hA h₂ hk₃ h₃ hqk
  rcases finish_error_cases hr with ⟨e₀, he₀, rfl⟩ | ⟨e₀, he₀, rfl⟩
  · rcases Mat3.inverse_error_kind he₀ with hk | hk <;> simp [hk]
  · simpa using checkReduced_kind_of_passes (fun g hc => hx.check_passes hA hG hδ hc) he₀

set_option maxRecDepth 8000 in
/-- A pair out of Lovász order is swapped, the new second vector is reduced against the first,
and the loop leaves the standard basis in three steps. The heads of both passes are
conditioned, so the closing check accepts what the loop returns. -/
theorem swappedPair_reduce_passes_own_check :
    (∀ gs n p, compute (⟨⟨1, 1, 0⟩, ⟨1, 0, 0⟩, ⟨0, 0, 1⟩⟩ : Mat3 Float)
        (Options.ofSettings []).tolerance = .ok gs →
      (⟨⟨⟨1, 1, 0⟩, ⟨1, 0, 0⟩, ⟨0, 0, 1⟩⟩, Mat3.identity, gs, 2, 0, 0⟩ : Progress Float).afterSteps
        (Options.ofSettings []) n = some p → p.k = 2 → p.basis.conditioned = true) ∧
      ((∃ res, (reduce (⟨⟨1, 1, 0⟩, ⟨1, 0, 0⟩, ⟨0, 0, 1⟩⟩ : Mat3 Float) []).result = .ok res) ∨
        ∃ e, (reduce (⟨⟨1, 1, 0⟩, ⟨1, 0, 0⟩, ⟨0, 0, 1⟩⟩ : Mat3 Float) []).result = .error e ∧
          e.kind ≠ .notSizeReduced ∧ e.kind ≠ .lovaszViolated) := by
  have hheads : ∀ gs n p, compute (⟨⟨1, 1, 0⟩, ⟨1, 0, 0⟩, ⟨0, 0, 1⟩⟩ : Mat3 Float)
      (Options.ofSettings []).tolerance = .ok gs →
      (⟨⟨⟨1, 1, 0⟩, ⟨1, 0, 0⟩, ⟨0, 0, 1⟩⟩, Mat3.identity, gs, 2, 0, 0⟩ : Progress Float).afterSteps
        (Options.ofSettings []) n = some p → p.k = 2 → p.basis.conditioned = true := by
    intro gs n p hgs hp hk
    have hg : compute (⟨⟨1, 1, 0⟩, ⟨1, 0, 0⟩, ⟨0, 0, 1⟩⟩ : Mat3 Float)
        (Options.ofSettings []).tolerance =
        .ok ⟨⟨⟨1, 1, 0⟩, ⟨0.5, -0.5, 0⟩, ⟨0, 0, 1⟩⟩, ⟨2, 0.5, 1⟩,
          ⟨⟨0, 0, 0⟩, ⟨0.5, 0, 0⟩, ⟨0, 0, 0⟩⟩⟩ := by
      rw [compute_eq_refresh]
      decide
    rw [hg] at hgs
    cases hgs
    have h₁ : Progress.step (Options.ofSettings [] : Options Float)
        ⟨⟨⟨1, 1, 0⟩, ⟨1, 0, 0⟩, ⟨0, 0, 1⟩⟩, Mat3.identity,
          ⟨⟨⟨1, 1, 0⟩, ⟨0.5, -0.5, 0⟩, ⟨0, 0, 1⟩⟩, ⟨2, 0.5, 1⟩,
            ⟨⟨0, 0, 0⟩, ⟨0.5, 0, 0⟩, ⟨0, 0, 0⟩⟩⟩, 2, 0, 0⟩ =
        .ok (⟨⟨⟨1, 0, 0⟩, ⟨1, 1, 0⟩, ⟨0, 0, 1⟩⟩, ⟨⟨0, 1, 0⟩, ⟨1, 0, 0⟩, ⟨0, 0, 1⟩⟩,
          ⟨Mat3.identity, ⟨1, 1, 1⟩, ⟨⟨0, 0, 0⟩, ⟨1, 0, 0⟩, ⟨0, 0, 0⟩⟩⟩, 2, 1, 1⟩,
          ⟨1, 2, .swap, 0, 1⟩) := by
      with_unfolding_all rfl
    have h₂ : Progress.step (Options.ofSettings [] : Options Float)
        ⟨⟨⟨1, 0, 0⟩, ⟨1, 1, 0⟩, ⟨0, 0, 1⟩⟩, ⟨⟨0, 1, 0⟩, ⟨1, 0, 0⟩, ⟨0, 0, 1⟩⟩,
          ⟨Mat3.identity, ⟨1, 1, 1⟩, ⟨⟨0, 0, 0⟩, ⟨1, 0, 0⟩, ⟨0, 0, 0⟩⟩⟩, 2, 1, 1⟩ =
        .ok (⟨Mat3.identity, ⟨⟨0, 1, 0⟩, ⟨1, -1, 0⟩, ⟨0, 0, 1⟩⟩,
          ⟨Mat3.identity, ⟨1, 1, 1⟩, Mat3.zero⟩, 3, 2, 1⟩, ⟨2, 2, .advance, 1, 1⟩) := by
      with_unfolding_all rfl
    have h₃ : Progress.step (Options.ofSettings [] : Options Float)
        ⟨Mat3.identity, ⟨⟨0, 1, 0⟩, ⟨1, -1, 0⟩, ⟨0, 0, 1⟩⟩,
          ⟨Mat3.identity, ⟨1, 1, 1⟩, Mat3.zero⟩, 3, 2, 1⟩ =
        .ok (⟨Mat3.identity, ⟨⟨0, 1, 0⟩, ⟨1, -1, 0⟩, ⟨0, 0, 1⟩⟩,
          ⟨Mat3.identity, ⟨1, 1, 1⟩, Mat3.zero⟩, 4, 3, 1⟩, ⟨3, 3, .advance, 0, 1⟩) := by
      with_unfolding_all rfl
    -- the heads are the start and the state after the swap; later states are past the head
    rcases n with _ | _ | _ | _ | n
    · rw [Progress.afterSteps_zero, Option.some.injEq] at hp
      subst hp
      rw [Mat3.conditioned, compute_eq_refresh]
      with_unfolding_all decide
    · rw [Progress.afterSteps_succ_of_step (by decide) h₁, Progress.afterSteps_zero,
        Option.some.injEq] at hp
      subst hp
      rw [Mat3.conditioned, compute_eq_refresh]
      with_unfolding_all decide
    · rw [Progress.afterSteps_succ_of_step (by decide) h₁,
        Progress.afterSteps_succ_of_step (by decide) h₂, Progress.afterSteps_zero,
        Option.some.injEq] at hp
      subst hp
      cases hk
    · rw [Progress.afterSteps_succ_of_step (by decide) h₁,
        Progress.afterSteps_succ_of_step (by decide) h₂,
        Progress.afterSteps_succ_of_step (by decide) h₃, Progress.afterSteps_zero,
        Option.some.injEq] at hp
      subst hp
      cases hk
    · rw [Progress.afterSteps_succ_of_step (by decide) h₁,
        Progress.afterSteps_succ_of_step (by decide) h₂,
        Progress.afterSteps_succ_of_step (by decide) h₃,
        Progress.afterSteps_succ_of_lt (by decide)] at hp
      cases hp
  exact ⟨hheads, reduce_passes_own_check_of_conditioned hheads⟩

end Reduce

end Reduction

end CrystalLattice
