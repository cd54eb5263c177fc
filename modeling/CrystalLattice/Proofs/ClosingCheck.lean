import CrystalLattice.Proofs.StepBudget

/-!
# The closing check

An exact reduction ends on an LLL-reduced basis whose orthogonalisation is the one the check
recomputes, so it fails only on an option, a degenerate lattice or a spent budget. In binary64
the loop's updated coefficients can drift from the recomputed ones by more than the slack
(`nearlyDependentLattice_reduce_rejects_own_output`); they stay within it when the head of the
last pass is well conditioned (Proofs/ConditionedReduction).
-/

namespace CrystalLattice.Reduction

section Loop

variable {α : Type} [Scalar α] {o : Options α}

/-- The loop fails only by spending its budget, or on a degenerate vector that the refresh
after a swap meets. -/
theorem runSteps_error_kind (budget : ℕ) :
    ∀ (p : Progress α) (trace trace' : Array StepEvent) (e : Failure α),
      runSteps o budget p trace = (trace', .error e) →
        e.kind = .divergence ∨ e.kind = .degenerateLattice := by
  induction budget with
  | zero =>
    intro p trace trace' e h
    by_cases hk : 3 < p.k
    · rw [runSteps_of_lt hk] at h
      cases h
    · simp only [runSteps, if_neg (show ¬p.k > 3 from hk), Prod.mk.injEq, Except.error.injEq]
        at h
      rw [← h.2]
      exact .inl rfl
  | succ n ih =>
    intro p trace trace' e h
    by_cases hk : 3 < p.k
    · rw [runSteps_of_lt hk] at h
      cases h
    cases hs : p.step o with
    | error c =>
      rw [runSteps_succ_of_step_error (by omega) hs] at h
      cases h
      exact .inr (by simpa using Progress.step_error_kind hs)
    | ok q =>
      obtain ⟨p', ev⟩ := q
      rw [runSteps_succ_of_step (by omega) hs] at h
      exact ih p' _ trace' e h

end Loop

section Exact

/-- Finishing on an LLL-reduced basis of the input lattice fails only on an invalid option or a
degenerate vector: the integer matrix has determinant `±1`, so it inverts, and the check finds
neither a coefficient nor a pair to report. -/
theorem finish_error_kind_of_lllReduced {lattice : Mat3 ℚ} {o : Options ℚ} {p : Progress ℚ}
    {e : Failure ℚ} (hsame : SameLattice lattice p.basis p.mapping)
    (hred : LLLReduced o.delta p.basis) (h : finish o p = .error e) :
    e.kind = .optionViolation ∨ e.kind = .degenerateLattice := by
  rcases finish_error_cases h with ⟨e₀, he₀, rfl⟩ | ⟨e₀, he₀, rfl⟩
  · rw [hsame.integral.round_eq, Mat3.inverse_eq_ok hsame.det_ne_zero] at he₀
    cases he₀
  · simpa using LLLReduced.checkReduced_error_kind hred he₀

/-- An exact reduction fails only on an invalid option, a degenerate lattice or a spent budget.
In particular it never rejects the basis its own loop produced for an oversized coefficient or
a failed Lovász pair, and never finds its integer matrix singular. -/
theorem reduce_fails_only_on_options_degeneracy_or_budget {lattice : Mat3 ℚ}
    {settings : List (Setting ℚ)} {e : Failure ℚ}
    (he : (reduce lattice settings).result = .error e) :
    e.kind = .optionViolation ∨ e.kind = .degenerateLattice ∨ e.kind = .divergence := by
  rw [reduce_result] at he
  cases hf : (Options.ofSettings settings).fault with
  | some c =>
    simp only [runWith, hf] at he
    cases he
    exact .inl (by simpa using Options.ofSettings_fault_kind hf)
  | none =>
    generalize Options.ofSettings settings = o at he hf
    cases hg : GramSchmidt.compute lattice o.tolerance with
    | error c =>
      rw [runWith_of_compute_error hf (Mat3.validateFinite_rat lattice) hg] at he
      cases he
      exact .inr (.inl (by simpa using GramSchmidt.compute_error_kind hg))
    | ok gs =>
      rw [runWith_of_compute hf (Mat3.validateFinite_rat lattice) hg] at he
      rcases hrun : runSteps o o.maxSteps ⟨lattice, Mat3.identity, gs, 2, 0, 0⟩ #[] with
        ⟨trace, r⟩
      rw [hrun] at he
      cases r with
      | error e' =>
        cases he
        rcases runSteps_error_kind _ _ _ _ _ hrun with hk | hk
        · exact .inr (.inr hk)
        · exact .inr (.inl hk)
      | ok p =>
        obtain ⟨hinv, hk⟩ := runSteps_loopInvariant (loopInvariant_start o.delta hg) hrun
        rcases finish_error_kind_of_lllReduced (runSteps_sameLattice hrun) (hinv.lllReduced hk)
          he with hk' | hk'
        · exact .inl hk'
        · exact .inr (.inl hk')

end Exact

/-- In binary64 a reduction can reject its own output: the coefficient `10¹⁶ / 1.01` held to
binary64's spacing `2` is updated to `0`, and the check recomputes it as `0.9900990099009901`. -/
theorem nearlyDependentLattice_reduce_rejects_own_output :
    (reduce (⟨⟨1, 0, 0⟩, ⟨0, 1e16, 0⟩, ⟨0, 1, 0.1⟩⟩ : Mat3 Float) []).result =
      .error (.within .reduce
        (.within .check (.ofCause (.notSizeReduced 2 1 0.9900990099009901)))) := by
  decide +kernel

end CrystalLattice.Reduction
