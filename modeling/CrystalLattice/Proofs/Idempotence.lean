import CrystalLattice.Proofs.Unimodular
import CrystalLattice.Proofs.FixedPoints

/-!
# Reducing twice

An exact reduction ends on an LLL-reduced basis with its fresh orthogonalisation, so a second
reduction advances twice and returns it unchanged (`reduce_idempotent`). In binary64 a
coefficient held at one half can come back just above it (`reduceTwice_sizeReducesAgain`).
-/

namespace CrystalLattice.Reduction

open GramSchmidt

namespace Progress

variable {p : Progress ℚ}

theorem step_k_le {o : Options ℚ} {p' : Progress ℚ} {ev : StepEvent}
    (h : p.step o = .ok (p', ev)) : p'.k ≤ p.k + 1 := by
  by_cases hk : 2 ≤ p.k ∧ p.k ≤ 3
  · obtain ⟨r, lower, p₁, -, -, hp₁, hcase⟩ := step_cases h hk
    have hk₁ : p₁.k = p.k := hp₁ ▸ (sizeReduce_reducedFrom _ r).k_eq
    rcases hcase with ⟨-, rfl⟩ | ⟨-, gs, -, rfl⟩
    · simp [hk₁]
    · simp only
      split_ifs <;> omega
  · rw [step_of_not_mem h hk]
    omega

end Progress

theorem runSteps_k_le {o : Options ℚ} (budget : ℕ) :
    ∀ {p p' : Progress ℚ} {trace trace' : Array StepEvent},
      runSteps o budget p trace = (trace', .ok p') → p'.k ≤ p.k + budget := by
  induction budget with
  | zero =>
    intro p p' trace trace' h
    by_cases hk : 3 < p.k
    · rw [runSteps_of_lt hk] at h
      cases h
      omega
    · simp [runSteps, hk] at h
  | succ n ih =>
    intro p p' trace trace' h
    by_cases hk : 3 < p.k
    · rw [runSteps_of_lt hk] at h
      cases h
      omega
    · cases hs : p.step o with
      | error c => simp [runSteps, hk, hs] at h
      | ok a =>
        obtain ⟨q, ev⟩ := a
        rw [runSteps_succ_of_step (by omega) hs] at h
        have := ih h
        have := Progress.step_k_le hs
        omega

section Finish

/-- A size-reduced orthogonalisation that satisfies the Lovász condition passes the loop's
tests. -/
theorem passesLoopTests_of_lllReduced {δ : ℚ} {g : GramSchmidt ℚ} (hsize : SizeReducedBelow g 3)
    (hlov : LovaszBelow δ g 3) : PassesLoopTests δ g where
  size i j hji := by simpa [half_rat] using hsize i j hji i.isLt
  lovasz i lower hi := by simpa [lovaszBound] using hlov i lower hi i.isLt

theorem checkReduced_of_finish {α : Type} [Scalar α] {o : Options α} {p : Progress α}
    {res : Result α} (h : finish o p = .ok res) : checkReduced p.basis o.delta checkSlack o.tolerance = .ok () := by
  obtain ⟨inv, -, hrest⟩ := bind_eq_ok h
  obtain ⟨u, hcheck, -⟩ := bind_eq_ok hrest
  exact mapError_eq_ok hcheck

theorem inverse_identity : (Mat3.identity : Mat3 ℚ).inverse = .ok Mat3.identity := by
  rw [Mat3.inverse_eq_ok (by rw [Mat3.det_identity]; norm_num), Mat3.det_identity]
  congr 1
  refine Mat3.eq_of_get_eq fun i j => ?_
  fin_cases i <;> fin_cases j <;> simp [Mat3.identity, Mat3.adjugate, Mat3.mapRows, Vec3.map,
    Mat3.get_def]

end Finish

/-- Reducing the result of a reduction again, with the same settings, changes nothing: the second
reduction advances twice over the reduced basis and returns it with the identity matrix and
its inverse, after two steps and no swap. -/
theorem reduce_idempotent {L : Mat3 ℚ} {settings : List (Setting ℚ)} {res : Result ℚ}
    (h : (reduce L settings).result = .ok res) :
    (reduce res.reduced settings).result =
      .ok ⟨res.reduced, Mat3.identity, Mat3.identity, 2, 0⟩ := by
  rw [reduce_result] at h ⊢
  generalize Options.ofSettings settings = o at h ⊢
  obtain ⟨gs, trace, p, hgs, hrun, hfin⟩ := runWith_eq_ok h
  have hfault : o.fault = none := by
    simp only [runWith] at h
    split at h
    · cases h
    · assumption
  obtain ⟨hinv, hk⟩ := runSteps_loopInvariant (loopInvariant_start o.delta hgs) hrun
  have hk4 : p.k - 1 = 3 := by have := hinv.k_le; omega
  have hcheck := checkReduced_of_finish hfin
  obtain ⟨-, -, -, g, hg, -⟩ := checkReduced_eq_ok_iff.mp hcheck
  obtain rfl : g = p.gs := hinv.orthogonalises.unique (compute_orthogonalises hg)
  obtain ⟨inv, -, rfl⟩ := finish_eq_ok hfin
  have hbudget : 2 ≤ o.maxSteps := by
    have := runSteps_k_le o.maxSteps hrun
    simp at this
    omega
  rw [runWith_of_passesLoopTests hfault hbudget (Mat3.validateFinite_rat _) hg
    (passesLoopTests_of_lllReduced (hk4 ▸ hinv.sizeReduced) (hk4 ▸ hinv.lovasz))
    Mat3.isIntegral_identity.round_eq inverse_identity hcheck]

/-- A lattice whose first vector is the longest is reduced in five steps and two swaps, which
move that vector to the end; reducing the result again returns it with the identity matrix. -/
theorem stretchedAxis_reduce_idempotent :
    (reduce (⟨⟨2, 0, 0⟩, ⟨0, 1, 0⟩, ⟨0, 0, 1⟩⟩ : Mat3 ℚ) []).result =
        .ok ⟨⟨⟨0, 1, 0⟩, ⟨0, 0, 1⟩, ⟨2, 0, 0⟩⟩, ⟨⟨0, 1, 0⟩, ⟨0, 0, 1⟩, ⟨1, 0, 0⟩⟩,
          ⟨⟨0, 0, 1⟩, ⟨1, 0, 0⟩, ⟨0, 1, 0⟩⟩, 5, 2⟩ ∧
      (reduce (⟨⟨0, 1, 0⟩, ⟨0, 0, 1⟩, ⟨2, 0, 0⟩⟩ : Mat3 ℚ) []).result =
        .ok ⟨⟨⟨0, 1, 0⟩, ⟨0, 0, 1⟩, ⟨2, 0, 0⟩⟩, Mat3.identity, Mat3.identity, 2, 0⟩ := by
  have h : (reduce (⟨⟨2, 0, 0⟩, ⟨0, 1, 0⟩, ⟨0, 0, 1⟩⟩ : Mat3 ℚ) []).result =
      .ok ⟨⟨⟨0, 1, 0⟩, ⟨0, 0, 1⟩, ⟨2, 0, 0⟩⟩, ⟨⟨0, 1, 0⟩, ⟨0, 0, 1⟩, ⟨1, 0, 0⟩⟩,
        ⟨⟨0, 0, 1⟩, ⟨1, 0, 0⟩, ⟨0, 1, 0⟩⟩, 5, 2⟩ := by
    decide +kernel
  exact ⟨h, reduce_idempotent h⟩

/-- In binary64 a second reduction can size-reduce again: a coefficient the check admitted as
`-0.5000000000000003` is reduced by the second loop. -/
theorem reduceTwice_sizeReducesAgain :
    (reduce (⟨⟨0.8, -1.1, -0.2⟩, ⟨0, -0.7, 0.9⟩, ⟨0, -0.2, 0⟩⟩ : Mat3 Float) [.delta 0.75]).result =
        .ok ⟨⟨⟨0, -0.2, 0⟩, ⟨0, -0.09999999999999987, 0.9⟩, ⟨0.8, 0.10000000000000009, -0.2⟩⟩,
          ⟨⟨0, 0, 1⟩, ⟨0, 1, -3⟩, ⟨1, 0, -6⟩⟩, ⟨⟨6, 0, 1⟩, ⟨3, 1, 0⟩, ⟨1, 0, 0⟩⟩, 6, 3⟩ ∧
      (reduce (⟨⟨0, -0.2, 0⟩, ⟨0, -0.09999999999999987, 0.9⟩,
          ⟨0.8, 0.10000000000000009, -0.2⟩⟩ : Mat3 Float) [.delta 0.75]).result =
        .ok ⟨⟨⟨0, -0.2, 0⟩, ⟨0, -0.09999999999999987, 0.9⟩, ⟨0.8, -0.09999999999999992, -0.2⟩⟩,
          ⟨⟨1, 0, 0⟩, ⟨0, 1, 0⟩, ⟨1, 0, 1⟩⟩, ⟨⟨1, 0, 0⟩, ⟨0, 1, 0⟩, ⟨-1, 0, 1⟩⟩, 2, 0⟩ := by
  decide +kernel

end CrystalLattice.Reduction
