import CrystalLattice.Proofs.ReductionStep

/-!
# The reduced basis

Between exact steps the vectors before the pointer are LLL-reduced for the orthogonalisation of
the current basis (`LoopInvariant`), so the loop ends on a reduced basis
(`runSteps_exit_lllReduced`) and the closing check never reports a coefficient or a pair.
-/

namespace CrystalLattice.Reduction

open GramSchmidt

/-- Every coefficient below the diagonal in the rows before `n` is at most one half in size. -/
def SizeReducedBelow (g : GramSchmidt ℚ) (n : ℕ) : Prop :=
  ∀ i j : Fin 3, j < i → i.val < n → |g.coeff.get i j| ≤ 1 / 2

/-- The Lovász condition `(δ - μᵢⱼ²) ‖b*ⱼ‖² ≤ ‖b*ᵢ‖²` holds for every pair `(j, i = j + 1)`
with `i < n`. -/
def LovaszBelow (δ : ℚ) (g : GramSchmidt ℚ) (n : ℕ) : Prop :=
  ∀ i j : Fin 3, j.val + 1 = i.val → i.val < n →
    (δ - g.coeff.get i j * g.coeff.get i j) * g.normSq.get j ≤ g.normSq.get i

/-- A basis is LLL-reduced for `δ`: its orthogonalisation is size-reduced and satisfies the
Lovász condition for every consecutive pair. -/
def LLLReduced (δ : ℚ) (basis : Mat3 ℚ) : Prop :=
  ∃ g, Orthogonalises basis g 3 ∧ SizeReducedBelow g 3 ∧ LovaszBelow δ g 3

/-- What holds between the steps of an exact reduction: the pointer lies in `{2, 3, 4}`, the
state's orthogonalisation is that of its basis, and the vectors before the pointer are
reduced. -/
structure LoopInvariant (δ : ℚ) (p : Progress ℚ) : Prop where
  k_ge : 2 ≤ p.k
  k_le : p.k ≤ 4
  orthogonalises : Orthogonalises p.basis p.gs 3
  sizeReduced : SizeReducedBelow p.gs (p.k - 1)
  lovasz : LovaszBelow δ p.gs (p.k - 1)

section Prefix

variable {δ : ℚ} {g g' : GramSchmidt ℚ}

theorem sizeReducedBelow_one (g : GramSchmidt ℚ) : SizeReducedBelow g 1 := by
  intro i j hji hi
  omega

theorem lovaszBelow_one (δ : ℚ) (g : GramSchmidt ℚ) : LovaszBelow δ g 1 := by
  intro i j hji hi
  omega

theorem SizeReducedBelow.congr {n : ℕ} (h : SizeReducedBelow g n)
    (hc : ∀ i : Fin 3, i.val < n → g'.coeff.row i = g.coeff.row i) : SizeReducedBelow g' n := by
  intro i j hji hi
  rw [Mat3.get_def, hc i hi, ← Mat3.get_def]
  exact h i j hji hi

theorem LovaszBelow.congr {n : ℕ} (h : LovaszBelow δ g n)
    (hc : ∀ i : Fin 3, i.val < n → g'.coeff.row i = g.coeff.row i)
    (hm : g'.normSq = g.normSq) : LovaszBelow δ g' n := by
  intro i j hji hi
  rw [Mat3.get_def, hc i hi, ← Mat3.get_def, hm]
  exact h i j hji hi

theorem SizeReducedBelow.extend {r : Fin 3} (h : SizeReducedBelow g r.val)
    (hr : ∀ j, j < r → |g.coeff.get r j| ≤ 1 / 2) : SizeReducedBelow g (r.val + 1) := by
  intro i j hji hi
  rcases Nat.lt_succ_iff_lt_or_eq.mp hi with hlt | heq
  · exact h i j hji hlt
  · obtain rfl : i = r := Fin.ext heq
    exact hr j hji

theorem LovaszBelow.extend {r lower : Fin 3} (hlower : lower.val + 1 = r.val)
    (h : LovaszBelow δ g r.val)
    (hr : (δ - g.coeff.get r lower * g.coeff.get r lower) * g.normSq.get lower ≤ g.normSq.get r) :
    LovaszBelow δ g (r.val + 1) := by
  intro i j hji hi
  rcases Nat.lt_succ_iff_lt_or_eq.mp hi with hlt | heq
  · exact h i j hji hlt
  · obtain rfl : i = r := Fin.ext heq
    obtain rfl : j = lower := Fin.ext (by omega)
    exact hr

end Prefix

section Loop

variable {δ : ℚ} {o : Options ℚ}

theorem loopInvariant_start {lattice : Mat3 ℚ} {gs : GramSchmidt ℚ} {tol : ℚ} (δ : ℚ)
    (h : GramSchmidt.compute lattice tol = .ok gs) :
    LoopInvariant δ ⟨lattice, Mat3.identity, gs, 2, 0, 0⟩ :=
  ⟨le_rfl, (by decide : (2 : ℕ) ≤ 4), compute_orthogonalises h, sizeReducedBelow_one gs,
    lovaszBelow_one δ gs⟩

theorem GramSchmidt.Orthogonalises.swapRows {basis : Mat3 ℚ} {g : GramSchmidt ℚ} {r lower : Fin 3}
    (h : Orthogonalises basis g 3) (hlower : lower < r) :
    Orthogonalises (basis.swapRows r lower) g lower.val := by
  intro i hi
  have hil : i ≠ lower := Fin.ne_of_lt hi
  have hir : i ≠ r := Fin.ne_of_lt (lt_trans hi hlower)
  exact (h i i.isLt).congr (Mat3.row_swapRows_of_ne _ hir hil) rfl (fun _ _ => rfl) rfl

theorem step_loopInvariant {p p' : Progress ℚ} {ev : StepEvent}
    (hinv : LoopInvariant o.delta p) (hk : p.k ≤ 3) (h : p.step o = .ok (p', ev)) :
    LoopInvariant o.delta p' := by
  obtain ⟨r, lower, p₁, hr, hlower, hp₁, hcase⟩ := Progress.step_cases h ⟨hinv.k_ge, hk⟩
  have hred : ReducedFrom r { p with steps := p.steps + 1 } p₁ :=
    hp₁ ▸ Progress.sizeReduce_reducedFrom _ r
  have hk₁ : p₁.k = p.k := hred.k_eq
  have horth₁ : Orthogonalises p₁.basis p₁.gs 3 := hred.orthogonalises hinv.orthogonalises
  rcases hcase with ⟨hl, rfl⟩ | ⟨-, gs, hgs, rfl⟩
  · -- advance: vector `r` was just size-reduced and passed the Lovász test
    have hsize : SizeReducedBelow p₁.gs r.val := by
      rw [hr]
      exact hinv.sizeReduced.congr fun i hi =>
        hred.coeff_row_of_ne (Fin.ne_of_lt (Fin.lt_def.mpr (by omega)))
    have hlov : LovaszBelow o.delta p₁.gs r.val := by
      rw [hr]
      exact hinv.lovasz.congr (fun i hi =>
        hred.coeff_row_of_ne (Fin.ne_of_lt (Fin.lt_def.mpr (by omega)))) hred.normSq_eq
    have hk' : p₁.k + 1 - 1 = r.val + 1 := by omega
    refine ⟨by simp; omega, by simp; omega, horth₁, ?_, ?_⟩
    · simp only [hk']
      exact hsize.extend fun j hj => hp₁ ▸ Progress.sizeReduce_coeff_le _ hj
    · simp only [hk']
      refine hlov.extend hlower ?_
      simpa [Progress.lovaszHolds] using hl
  · -- swap: the pointer returns to `2`, where only the first vector is claimed
    have hprev := horth₁.swapRows (show lower < r from Fin.lt_def.mpr (by omega))
    have hk' : (if p₁.k > 2 then p₁.k - 1 else p₁.k) = 2 := by split_ifs <;> omega
    refine ⟨by simp [hk'], by simp [hk'], (refreshFrom_orthogonalises hprev hgs).1, ?_, ?_⟩
    · simpa [hk'] using sizeReducedBelow_one gs
    · simpa [hk'] using lovaszBelow_one o.delta gs

/-- A run that ends has reached a state of the invariant with the pointer past the last
vector. -/
theorem runSteps_loopInvariant {budget : ℕ} {p p' : Progress ℚ} {trace trace' : Array StepEvent}
    (hinv : LoopInvariant o.delta p) (h : runSteps o budget p trace = (trace', .ok p')) :
    LoopInvariant o.delta p' ∧ 3 < p'.k :=
  runSteps_preserves o (LoopInvariant o.delta) (fun _ _ _ hp hk hs => step_loopInvariant hp hk hs)
    budget p trace trace' p' hinv h

theorem LoopInvariant.lllReduced {p : Progress ℚ} (h : LoopInvariant δ p) (hk : 3 < p.k) :
    LLLReduced δ p.basis := by
  have hk4 : p.k - 1 = 3 := by have := h.k_le; omega
  exact ⟨p.gs, h.orthogonalises, hk4 ▸ h.sizeReduced, hk4 ▸ h.lovasz⟩

end Loop

@[simp] theorem Failure.kind_within {α : Type} (f : Frame) (e : Failure α) :
    (e.within f).kind = e.kind := rfl

@[simp] theorem Failure.kind_ofCause {α : Type} (c : Cause α) : (Failure.ofCause c).kind = c.kind :=
  rfl

section Check

variable {basis : Mat3 ℚ} {δ s tol : ℚ} {g : GramSchmidt ℚ}

theorem one_quarter_lt_of_deltaValid (h : deltaValid δ = true) : 1 / 4 < δ := by
  simp [deltaValid] at h
  norm_num at h
  linarith [h.1]

theorem nonneg_of_slackValid (h : slackValid s = true) : 0 ≤ s := by
  simpa [slackValid] using h

theorem checkReduced_of_deltaValid_eq_false (h : deltaValid δ = false) :
    checkReduced basis δ s tol = .error (.within .check (.ofCause (.badDelta δ))) := by
  simp only [checkReduced, h]
  rfl

theorem checkReduced_of_slackValid_eq_false (hδ : deltaValid δ = true) (h : slackValid s = false) :
    checkReduced basis δ s tol = .error (.within .check (.ofCause (.badSlack s))) := by
  simp only [checkReduced, hδ, h]
  rfl

theorem checkReduced_of_compute_error {c : Cause ℚ} (hδ : deltaValid δ = true)
    (hs : slackValid s = true) (h : compute basis tol = .error c) :
    checkReduced basis δ s tol = .error (.within .check (.ofCause c)) := by
  simp only [checkReduced, hδ, hs, h]
  rfl

/-- The check passes when its arguments are valid, the orthogonalisation exists, and neither
a coefficient nor a pair is reported. -/
theorem checkReduced_eq_ok (hδ : deltaValid δ = true) (hs : slackValid s = true)
    (hc : compute basis tol = .ok g) (hsize : oversizedCoeff? g s = none)
    (hlov : lovaszFailure? g δ s = none) : checkReduced basis δ s tol = .ok () := by
  simp [checkReduced, hδ, hs, hc, hsize, hlov, Mat3.validateFinite, Mat3.findIdx?, Vec3.findIdx?,
    bind, Except.bind, Except.mapError, pure, Except.pure]

theorem oversizedCoeff?_eq_none (hs : 0 ≤ s) (hsize : SizeReducedBelow g 3) :
    oversizedCoeff? g s = none := by
  have h10 := hsize 1 0 (by decide) (by decide)
  have h20 := hsize 2 0 (by decide) (by decide)
  have h21 := hsize 2 1 (by decide) (by decide)
  simp [oversizedCoeff?, half_rat]
  refine ⟨?_, ?_, ?_⟩ <;> linarith

/-- A size-reduced pair that satisfies the Lovász condition satisfies it under any slack:
for `δ > 1/4` and `|μ| ≤ 1/2` the bound `(δ - μ²) ‖b*ⱼ‖²` is not negative, so a factor
`1 - s ≤ 1` only lowers it. -/
theorem lovasz_mul_one_sub_le {μ m m' : ℚ} (hδ : 1 / 4 < δ) (hs : 0 ≤ s) (hμ : |μ| ≤ 1 / 2)
    (hm : 0 < m) (h : (δ - μ * μ) * m ≤ m') : (δ - μ * μ) * m * (1 - s) ≤ m' := by
  have hμ2 : μ * μ ≤ 1 / 4 := by
    rw [← abs_mul_abs_self]
    nlinarith [abs_nonneg μ]
  have hbound : 0 ≤ (δ - μ * μ) * m := mul_nonneg (by linarith) hm.le
  nlinarith [mul_nonneg hbound hs]

theorem lovaszFailure?_eq_none (hδ : 1 / 4 < δ) (hs : 0 ≤ s) (horth : Orthogonalises basis g 3)
    (hsize : SizeReducedBelow g 3) (hlov : LovaszBelow δ g 3) : lovaszFailure? g δ s = none := by
  have h10 := lovasz_mul_one_sub_le hδ hs (hsize 1 0 (by decide) (by decide))
    (horth 0 (by decide)).normSq_pos (hlov 1 0 rfl (by decide))
  have h21 := lovasz_mul_one_sub_le hδ hs (hsize 2 1 (by decide) (by decide))
    (horth 1 (by decide)).normSq_pos (hlov 2 1 rfl (by decide))
  simp only [lovaszFailure?, lovaszBound]
  simpa using ⟨h10, h21⟩

/-- The check of a reduced basis fails only on its arguments or on a vector it finds
degenerate under its tolerance. -/
theorem LLLReduced.checkReduced_error_kind {e : Failure ℚ} (hred : LLLReduced δ basis)
    (he : checkReduced basis δ s tol = .error e) :
    e.kind = .optionViolation ∨ e.kind = .degenerateLattice := by
  obtain ⟨g, horth, hsize, hlov⟩ := hred
  cases hδ : deltaValid δ
  · rw [checkReduced_of_deltaValid_eq_false hδ] at he
    cases he
    exact .inl rfl
  cases hs : slackValid s
  · rw [checkReduced_of_slackValid_eq_false hδ hs] at he
    cases he
    exact .inl rfl
  cases hc : compute basis tol with
  | error c =>
    rw [checkReduced_of_compute_error hδ hs hc] at he
    cases he
    exact .inr (by simpa using compute_error_kind hc)
  | ok g' =>
    obtain rfl : g' = g := horth.unique (compute_orthogonalises hc)
    have hs₀ := nonneg_of_slackValid hs
    rw [checkReduced_eq_ok hδ hs hc (oversizedCoeff?_eq_none hs₀ hsize)
      (lovaszFailure?_eq_none (one_quarter_lt_of_deltaValid hδ) hs₀ horth hsize hlov)] at he
    cases he

/-- The check of a reduced basis never reports a coefficient or a pair, whatever slack it is
given: it may only refuse its arguments or find the basis degenerate under its tolerance. -/
theorem LLLReduced.checkReduced_kind {e : Failure ℚ} (hred : LLLReduced δ basis)
    (he : checkReduced basis δ s tol = .error e) :
    e.kind ≠ .notSizeReduced ∧ e.kind ≠ .lovaszViolated := by
  rcases hred.checkReduced_error_kind he with hk | hk <;> simp [hk]

end Check

/-- When the reduction loop ends, started as a reduction starts it and with whatever budget,
its basis is LLL-reduced for `δ`, so the check that closes the reduction reports neither an
oversized coefficient nor a failed Lovász pair, whatever slack and tolerance it is given. -/
theorem runSteps_exit_lllReduced (o : Options ℚ) (lattice : Mat3 ℚ) (gs : GramSchmidt ℚ)
    (hgs : GramSchmidt.compute lattice o.tolerance = .ok gs) (budget : ℕ)
    (trace trace' : Array StepEvent) (p : Progress ℚ)
    (hrun : runSteps o budget ⟨lattice, Mat3.identity, gs, 2, 0, 0⟩ trace = (trace', .ok p)) :
    LLLReduced o.delta p.basis ∧
      ∀ s tol (e : Failure ℚ), checkReduced p.basis o.delta s tol = .error e →
        e.kind ≠ .notSizeReduced ∧ e.kind ≠ .lovaszViolated := by
  obtain ⟨hinv, hk⟩ := runSteps_loopInvariant (loopInvariant_start o.delta hgs) hrun
  have hred : LLLReduced o.delta p.basis := hinv.lllReduced hk
  exact ⟨hred, fun s tol e he => hred.checkReduced_kind he⟩

/-- A pair that fails the Lovász condition is swapped, the new second vector is reduced against
the first, and the loop ends on the standard basis in three steps. -/
theorem swappedPair_run_lllReduced :
    GramSchmidt.compute (⟨⟨1, 1, 0⟩, ⟨1, 0, 0⟩, ⟨0, 0, 1⟩⟩ : Mat3 ℚ)
        (Options.default : Options ℚ).tolerance =
        .ok ⟨⟨⟨1, 1, 0⟩, ⟨1 / 2, -1 / 2, 0⟩, ⟨0, 0, 1⟩⟩, ⟨2, 1 / 2, 1⟩,
          ⟨⟨0, 0, 0⟩, ⟨1 / 2, 0, 0⟩, ⟨0, 0, 0⟩⟩⟩ ∧
      runSteps (Options.default : Options ℚ) 3
          ⟨⟨⟨1, 1, 0⟩, ⟨1, 0, 0⟩, ⟨0, 0, 1⟩⟩, Mat3.identity,
            ⟨⟨⟨1, 1, 0⟩, ⟨1 / 2, -1 / 2, 0⟩, ⟨0, 0, 1⟩⟩, ⟨2, 1 / 2, 1⟩,
              ⟨⟨0, 0, 0⟩, ⟨1 / 2, 0, 0⟩, ⟨0, 0, 0⟩⟩⟩, 2, 0, 0⟩ #[] =
        (#[⟨1, 2, .swap, 0, 1⟩, ⟨2, 2, .advance, 1, 1⟩, ⟨3, 3, .advance, 0, 1⟩],
          .ok ⟨Mat3.identity, ⟨⟨0, 1, 0⟩, ⟨1, -1, 0⟩, ⟨0, 0, 1⟩⟩,
            ⟨Mat3.identity, ⟨1, 1, 1⟩, Mat3.zero⟩, 4, 3, 1⟩) ∧
      (LLLReduced (Options.default : Options ℚ).delta Mat3.identity ∧
        ∀ s tol (e : Failure ℚ),
          checkReduced Mat3.identity (Options.default : Options ℚ).delta s tol = .error e →
          e.kind ≠ .notSizeReduced ∧ e.kind ≠ .lovaszViolated) := by
  refine ⟨?hgs, ?hrun, runSteps_exit_lllReduced _ _ _ ?hgs _ _ _ _ ?hrun⟩
  case hgs => with_unfolding_all rfl
  case hrun =>
    have h₁ : Progress.step (Options.default : Options ℚ)
        ⟨⟨⟨1, 1, 0⟩, ⟨1, 0, 0⟩, ⟨0, 0, 1⟩⟩, Mat3.identity,
          ⟨⟨⟨1, 1, 0⟩, ⟨1 / 2, -1 / 2, 0⟩, ⟨0, 0, 1⟩⟩, ⟨2, 1 / 2, 1⟩,
            ⟨⟨0, 0, 0⟩, ⟨1 / 2, 0, 0⟩, ⟨0, 0, 0⟩⟩⟩, 2, 0, 0⟩ =
        .ok (⟨⟨⟨1, 0, 0⟩, ⟨1, 1, 0⟩, ⟨0, 0, 1⟩⟩, ⟨⟨0, 1, 0⟩, ⟨1, 0, 0⟩, ⟨0, 0, 1⟩⟩,
          ⟨Mat3.identity, ⟨1, 1, 1⟩, ⟨⟨0, 0, 0⟩, ⟨1, 0, 0⟩, ⟨0, 0, 0⟩⟩⟩, 2, 1, 1⟩,
          ⟨1, 2, .swap, 0, 1⟩) := by
      with_unfolding_all rfl
    have h₂ : Progress.step (Options.default : Options ℚ)
        ⟨⟨⟨1, 0, 0⟩, ⟨1, 1, 0⟩, ⟨0, 0, 1⟩⟩, ⟨⟨0, 1, 0⟩, ⟨1, 0, 0⟩, ⟨0, 0, 1⟩⟩,
          ⟨Mat3.identity, ⟨1, 1, 1⟩, ⟨⟨0, 0, 0⟩, ⟨1, 0, 0⟩, ⟨0, 0, 0⟩⟩⟩, 2, 1, 1⟩ =
        .ok (⟨Mat3.identity, ⟨⟨0, 1, 0⟩, ⟨1, -1, 0⟩, ⟨0, 0, 1⟩⟩,
          ⟨Mat3.identity, ⟨1, 1, 1⟩, Mat3.zero⟩, 3, 2, 1⟩, ⟨2, 2, .advance, 1, 1⟩) := by
      with_unfolding_all rfl
    have h₃ : Progress.step (Options.default : Options ℚ)
        ⟨Mat3.identity, ⟨⟨0, 1, 0⟩, ⟨1, -1, 0⟩, ⟨0, 0, 1⟩⟩,
          ⟨Mat3.identity, ⟨1, 1, 1⟩, Mat3.zero⟩, 3, 2, 1⟩ =
        .ok (⟨Mat3.identity, ⟨⟨0, 1, 0⟩, ⟨1, -1, 0⟩, ⟨0, 0, 1⟩⟩,
          ⟨Mat3.identity, ⟨1, 1, 1⟩, Mat3.zero⟩, 4, 3, 1⟩, ⟨3, 3, .advance, 0, 1⟩) := by
      with_unfolding_all rfl
    rw [runSteps_succ_of_step (by decide) h₁, runSteps_succ_of_step (by decide) h₂,
      runSteps_succ_of_step (by decide) h₃, runSteps_of_lt (by decide)]
    rfl

end CrystalLattice.Reduction
