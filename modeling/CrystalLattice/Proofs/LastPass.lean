import Mathlib
import CrystalLattice.Proofs.OrthogonalisationError
import CrystalLattice.Proofs.CurrentOrthogonalisation
import CrystalLattice.Proofs.SizeReducedRow

/-!
# The last pass of the loop

The loop leaves through two advances from the head of its last pass, where the pointer is at
`2` and the orthogonalisation follows the recurrence of the basis (`afterSteps_exit`,
`Progress.Current`). In binary64 the two advances subtract integer multiples from the second and
third vectors, and leave the basis and the coefficients a few roundings away from what exact
arithmetic gives for the same multiples.
-/

namespace CrystalLattice.Mat3

open CrystalLattice.Euclidean

/-- The rows of `B` come from those of `A` by the row operations of a last pass: the first is
kept, `m₁` times it is taken from the second, and `m₂₁` times the new second and `m₂₀` times
the first from the third, each up to an error small against every exact orthogonal vector of
`A`. -/
structure RowOps (A B : Mat3 Float) (m₁ m₂₁ m₂₀ : ℝ) : Prop where
  row₀ : B.row 0 = A.row 0
  row₁ : ∀ j, ‖(B.row 1).real - ((A.row 1).real - m₁ • (A.row 0).real)‖ ≤ ‖A.exactOrtho j‖ / 2 ^ 47
  row₂ : ∀ j, ‖(B.row 2).real - ((A.row 2).real - m₂₁ • (B.row 1).real - m₂₀ • (A.row 0).real)‖ ≤
    ‖A.exactOrtho j‖ / 2 ^ 44

namespace RowOps

variable {A B : Mat3 Float} {m₁ m₂₁ m₂₀ : ℝ} (h : RowOps A B m₁ m₂₁ m₂₀) (hA : A.WellConditioned)
include h hA

omit h in
theorem row₀_ne_zero : (A.row 0).real ≠ 0 :=
  norm_pos_iff.mp (hA.balanced.ortho_pos 0)

theorem exactOrtho_one : B.exactOrtho 1 = A.exactOrtho 1 +
    proj (A.row 0).real ((B.row 1).real - ((A.row 1).real - m₁ • (A.row 0).real)) := by
  change ortho₁ (B.row 0).real (B.row 1).real = ortho₁ (A.row 0).real (A.row 1).real + _
  rw [h.row₀]
  conv_lhs => rw [← add_sub_cancel ((A.row 1).real - m₁ • (A.row 0).real) (B.row 1).real]
  exact ortho₁_sub_smul_add (row₀_ne_zero hA) m₁

theorem norm_exactOrtho_one_sub_le (j : Fin 3) :
    ‖B.exactOrtho 1 - A.exactOrtho 1‖ ≤ ‖A.exactOrtho j‖ / 2 ^ 47 := by
  rw [h.exactOrtho_one hA, add_sub_cancel_left]
  exact (norm_proj_le _ _).trans (h.row₁ j)

theorem exactOrtho_one_ne_zero : ortho₁ (A.row 0).real (B.row 1).real ≠ 0 := by
  have hd := h.norm_exactOrtho_one_sub_le hA 1
  have hy := hA.balanced.ortho_pos 1
  have hB : B.exactOrtho 1 = ortho₁ (A.row 0).real (B.row 1).real := by
    change ortho₁ (B.row 0).real (B.row 1).real = _
    rw [h.row₀]
  rw [← hB, ← norm_pos_iff]
  have := norm_sub_norm_le (A.exactOrtho 1) (B.exactOrtho 1)
  rw [norm_sub_rev] at this
  have : ‖A.exactOrtho 1‖ / 2 ^ 47 < ‖A.exactOrtho 1‖ := by
    rw [div_lt_iff₀ (by positivity)]
    nlinarith
  linarith

theorem exactOrtho_two : B.exactOrtho 2 = ortho₂ (A.row 0).real (B.row 1).real ((A.row 2).real +
    ((B.row 2).real - ((A.row 2).real - m₂₁ • (B.row 1).real - m₂₀ • (A.row 0).real))) := by
  change ortho₂ (B.row 0).real (B.row 1).real (B.row 2).real = _
  rw [h.row₀]
  have hb : (B.row 2).real = ((A.row 2).real + ((B.row 2).real - ((A.row 2).real -
      m₂₁ • (B.row 1).real - m₂₀ • (A.row 0).real))) - m₂₁ • (B.row 1).real -
        m₂₀ • (A.row 0).real := by abel
  conv_lhs => rw [hb]
  exact ortho₂_sub_smul (row₀_ne_zero hA) (h.exactOrtho_one_ne_zero hA) m₂₁ m₂₀

/-- The exact orthogonal vectors move by far less than a rounding of the slack. -/
theorem norm_exactOrtho_sub_le (j : Fin 3) :
    ‖B.exactOrtho j - A.exactOrtho j‖ ≤ ‖A.exactOrtho j‖ / 2 ^ 40 := by
  have hy := hA.balanced.ortho_pos j
  fin_cases j
  · change ‖(B.row 0).real - (A.row 0).real‖ ≤ _
    rw [h.row₀, sub_self, norm_zero]
    positivity
  · refine (h.norm_exactOrtho_one_sub_le hA 1).trans ?_
    gcongr <;> norm_num
  · have hy₁ := hA.balanced.ortho_pos 1
    have hy₂ := hA.balanced.ortho_pos 2
    have hB₁ : B.exactOrtho 1 = ortho₁ (A.row 0).real (B.row 1).real := by
      change ortho₁ (B.row 0).real (B.row 1).real = _
      rw [h.row₀]
    -- the move of the second orthogonal vector, against its own length and the third's
    have hd₁ : ‖ortho₁ (A.row 0).real (B.row 1).real - ortho₁ (A.row 0).real (A.row 1).real‖ ≤
        ‖A.exactOrtho 1‖ / 2 ^ 47 := hB₁ ▸ h.norm_exactOrtho_one_sub_le hA 1
    have hd₂ : ‖ortho₁ (A.row 0).real (B.row 1).real - ortho₁ (A.row 0).real (A.row 1).real‖ ≤
        ‖A.exactOrtho 2‖ / 2 ^ 47 := hB₁ ▸ h.norm_exactOrtho_one_sub_le hA 2
    have hclose : ‖ortho₁ (A.row 0).real (B.row 1).real - ortho₁ (A.row 0).real (A.row 1).real‖ ≤
        ‖ortho₁ (A.row 0).real (A.row 1).real‖ / 8 :=
      hd₁.trans (by
        change ‖A.exactOrtho 1‖ / 2 ^ 47 ≤ ‖A.exactOrtho 1‖ / 8
        gcongr
        norm_num)
    have hmove : ‖B.exactOrtho 2 - A.exactOrtho 2‖ ≤
        4 * ‖(B.row 2).real - ((A.row 2).real - m₂₁ • (B.row 1).real - m₂₀ • (A.row 0).real)‖ +
          7 * ‖(A.row 2).real‖ * ‖ortho₁ (A.row 0).real (B.row 1).real -
            ortho₁ (A.row 0).real (A.row 1).real‖ / ‖A.exactOrtho 1‖ := by
      rw [h.exactOrtho_two hA]
      exact norm_ortho₂_sub_le (row₀_ne_zero hA) (norm_pos_iff.mp hy₁) hclose
    -- the third vector is at most twice as long as the second orthogonal vector
    have hratio : 7 * ‖(A.row 2).real‖ * ‖ortho₁ (A.row 0).real (B.row 1).real -
        ortho₁ (A.row 0).real (A.row 1).real‖ / ‖A.exactOrtho 1‖ ≤
          14 * (‖A.exactOrtho 2‖ / 2 ^ 47) := by
      rw [div_le_iff₀ hy₁]
      have ha₂ := hA.row_le 2 1
      calc 7 * ‖(A.row 2).real‖ * ‖ortho₁ (A.row 0).real (B.row 1).real -
            ortho₁ (A.row 0).real (A.row 1).real‖
          ≤ 7 * (2 * ‖A.exactOrtho 1‖) * (‖A.exactOrtho 2‖ / 2 ^ 47) := by gcongr
        _ = 14 * (‖A.exactOrtho 2‖ / 2 ^ 47) * ‖A.exactOrtho 1‖ := by ring
    have he₂ := h.row₂ 2
    have hsum : 4 * (‖A.exactOrtho 2‖ / 2 ^ 44) + 14 * (‖A.exactOrtho 2‖ / 2 ^ 47) ≤
        ‖A.exactOrtho 2‖ / 2 ^ 40 := by
      rw [← sub_nonneg]
      have e : ‖A.exactOrtho 2‖ / 2 ^ 40 - (4 * (‖A.exactOrtho 2‖ / 2 ^ 44) +
          14 * (‖A.exactOrtho 2‖ / 2 ^ 47)) = 82 / 2 ^ 47 * ‖A.exactOrtho 2‖ := by ring
      rw [e]
      positivity
    change ‖B.exactOrtho 2 - A.exactOrtho 2‖ ≤ ‖A.exactOrtho 2‖ / 2 ^ 40
    linarith

theorem exactCoeff_one_zero : B.exactCoeff 1 0 = A.exactCoeff 1 0 - m₁ +
    coeff ((B.row 1).real - ((A.row 1).real - m₁ • (A.row 0).real)) (A.row 0).real := by
  change coeff (B.row 1).real (B.row 0).real = coeff (A.row 1).real (A.row 0).real - m₁ + _
  rw [h.row₀]
  conv_lhs => rw [← add_sub_cancel ((A.row 1).real - m₁ • (A.row 0).real) (B.row 1).real]
  exact coeff_sub_smul_add (row₀_ne_zero hA) m₁

omit h in
/-- Against the first vector, the error of a row is at most its bound against the first exact
orthogonal vector. -/
theorem abs_coeff_row₀_le {e : EuclideanSpace ℝ (Fin 3)} {ε : ℝ}
    (he : ‖e‖ ≤ ‖A.exactOrtho 0‖ * ε) : |coeff e (A.row 0).real| ≤ ε := by
  have hy := hA.balanced.ortho_pos 0
  refine (abs_coeff_le _ _).trans ?_
  change ‖e‖ / ‖A.exactOrtho 0‖ ≤ ε
  rw [div_le_iff₀ hy, mul_comm]
  exact he

theorem abs_exactCoeff_one_zero_sub_le :
    |B.exactCoeff 1 0 - (A.exactCoeff 1 0 - m₁)| ≤ 1 / 2 ^ 47 := by
  rw [h.exactCoeff_one_zero hA, add_sub_cancel_left]
  exact abs_coeff_row₀_le hA ((h.row₁ 0).trans_eq (by ring))

theorem exactCoeff_two_one : B.exactCoeff 2 1 = coeff ((A.row 2).real +
    ((B.row 2).real - ((A.row 2).real - m₂₁ • (B.row 1).real - m₂₀ • (A.row 0).real)))
      (ortho₁ (A.row 0).real (B.row 1).real) - m₂₁ := by
  change coeff (B.row 2).real (ortho₁ (B.row 0).real (B.row 1).real) = _
  rw [h.row₀]
  have hb : (B.row 2).real = ((A.row 2).real + ((B.row 2).real - ((A.row 2).real -
      m₂₁ • (B.row 1).real - m₂₀ • (A.row 0).real))) - m₂₁ • (B.row 1).real -
        m₂₀ • (A.row 0).real := by abel
  conv_lhs => rw [hb]
  exact coeff_ortho₁_sub_smul (row₀_ne_zero hA) (h.exactOrtho_one_ne_zero hA) m₂₁ m₂₀

theorem abs_exactCoeff_two_one_sub_le :
    |B.exactCoeff 2 1 - (A.exactCoeff 2 1 - m₂₁)| ≤ 1 / 2 ^ 42 := by
  have hy₁ := hA.balanced.ortho_pos 1
  have hB₁ : B.exactOrtho 1 = ortho₁ (A.row 0).real (B.row 1).real := by
    change ortho₁ (B.row 0).real (B.row 1).real = _
    rw [h.row₀]
  have hd := h.norm_exactOrtho_one_sub_le hA 1
  rw [hB₁] at hd
  have hclose : ‖ortho₁ (A.row 0).real (B.row 1).real - A.exactOrtho 1‖ ≤ ‖A.exactOrtho 1‖ / 8 :=
    hd.trans (by
      gcongr
      norm_num)
  have hmove := abs_coeff_sub_le (a := (A.row 2).real) (b := (A.row 2).real +
    ((B.row 2).real - ((A.row 2).real - m₂₁ • (B.row 1).real - m₂₀ • (A.row 0).real)))
    (norm_pos_iff.mp hy₁) hclose
  rw [add_sub_cancel_left] at hmove
  rw [h.exactCoeff_two_one hA, sub_sub_sub_cancel_right]
  refine hmove.trans ?_
  -- the row error and the move of the second orthogonal vector, against its length
  have h₁ : 2 * ‖(B.row 2).real - ((A.row 2).real - m₂₁ • (B.row 1).real -
      m₂₀ • (A.row 0).real)‖ / ‖A.exactOrtho 1‖ ≤ 2 / 2 ^ 44 := by
    rw [div_le_iff₀ hy₁]
    have := h.row₂ 1
    linarith
  have h₂ : 5 * ‖(A.row 2).real‖ * ‖ortho₁ (A.row 0).real (B.row 1).real - A.exactOrtho 1‖ /
      ‖A.exactOrtho 1‖ ^ 2 ≤ 10 / 2 ^ 47 := by
    rw [div_le_iff₀ (by positivity)]
    have ha₂ := hA.row_le 2 1
    calc 5 * ‖(A.row 2).real‖ * ‖ortho₁ (A.row 0).real (B.row 1).real - A.exactOrtho 1‖
        ≤ 5 * (2 * ‖A.exactOrtho 1‖) * (‖A.exactOrtho 1‖ / 2 ^ 47) := by gcongr
      _ = 10 / 2 ^ 47 * ‖A.exactOrtho 1‖ ^ 2 := by ring
  have : (2 : ℝ) / 2 ^ 44 + 10 / 2 ^ 47 ≤ 1 / 2 ^ 42 := by norm_num
  linarith

theorem exactCoeff_two_zero : B.exactCoeff 2 0 = coeff ((A.row 2).real +
    ((B.row 2).real - ((A.row 2).real - m₂₁ • (B.row 1).real - m₂₀ • (A.row 0).real)))
      (A.row 0).real - m₂₁ * B.exactCoeff 1 0 - m₂₀ := by
  change coeff (B.row 2).real (B.row 0).real = _ - m₂₁ * coeff (B.row 1).real (B.row 0).real - _
  rw [h.row₀]
  have hb : (B.row 2).real = ((A.row 2).real + ((B.row 2).real - ((A.row 2).real -
      m₂₁ • (B.row 1).real - m₂₀ • (A.row 0).real))) - m₂₁ • (B.row 1).real -
        m₂₀ • (A.row 0).real := by abel
  conv_lhs => rw [hb]
  exact coeff_sub_smul_sub_smul (row₀_ne_zero hA) m₂₁ m₂₀

theorem abs_exactCoeff_two_zero_sub_le :
    |B.exactCoeff 2 0 - (A.exactCoeff 2 0 - m₂₁ * B.exactCoeff 1 0 - m₂₀)| ≤ 1 / 2 ^ 44 := by
  rw [h.exactCoeff_two_zero hA, coeff_add]
  have e : coeff (A.row 2).real (A.row 0).real = A.exactCoeff 2 0 := rfl
  rw [e, show ∀ a b c d : ℝ, a + b - c - d - (a - c - d) = b by intros; ring]
  exact abs_coeff_row₀_le hA ((h.row₂ 0).trans_eq (by ring))

end RowOps

end CrystalLattice.Mat3

namespace CrystalLattice.Reduction

open GramSchmidt

namespace Progress

section Structure

variable {α : Type} [Scalar α] {o : Options α} {p p' : Progress α} {ev : StepEvent}

/-- The orthogonalisation a state keeps follows the recurrence of its basis: in row `0` always,
and in every row at the head of a pass. -/
structure Current (p : Progress α) : Prop where
  row₀ : RowRecurrence p.basis p.gs 0
  head : p.k = 2 → Recurrent p.basis p.gs 3

theorem subtractMultiple_row₀ {r i : Fin 3} (q : α) (hr : r ≠ 0)
    (h : RowRecurrence p.basis p.gs 0) :
    RowRecurrence (p.subtractMultiple r i q).basis (p.subtractMultiple r i q).gs 0 :=
  h.congr (Mat3.row_setRow_of_ne _ _ (Ne.symm hr)) (Mat3.row_setRow_of_ne _ _ (Ne.symm hr))
    (fun _ _ => rfl) (fun _ _ => rfl)

/-- Size reduction of vector `r` keeps what every subtraction of a multiple from it keeps. -/
theorem sizeReduce_preserves (P : Progress α → Prop) (r : Fin 3)
    (hsub : ∀ p i q, P p → P (p.subtractMultiple r i q)) (p : Progress α) (hp : P p) :
    P (p.sizeReduce r).1 := by
  have hfold : ∀ (l : List (Fin 3)) (acc : Progress α × ℕ), P acc.1 →
      P (l.foldl (reduceAgainst r) acc).1 := by
    intro l
    induction l with
    | nil => exact fun _ h => h
    | cons i l ih =>
      intro acc h
      refine ih _ ?_
      obtain ⟨q, n⟩ := acc
      rw [reduceAgainst_fst_eq]
      split_ifs
      · exact h
      · exact hsub _ _ _ h
  exact hfold (below r) (p, 0) hp

theorem reduceAgainst_row_of_ne {r j : Fin 3} (hj : j ≠ r) (acc : Progress α × ℕ) (i : Fin 3) :
    (reduceAgainst r acc i).1.basis.row j = acc.1.basis.row j := by
  obtain ⟨p, n⟩ := acc
  rw [reduceAgainst_fst_eq]
  split_ifs
  · rfl
  · exact Mat3.row_setRow_of_ne _ _ hj

theorem reduceAgainst_coeff_row_of_ne {r j : Fin 3} (hj : j ≠ r) (acc : Progress α × ℕ)
    (i : Fin 3) : (reduceAgainst r acc i).1.gs.coeff.row j = acc.1.gs.coeff.row j := by
  obtain ⟨p, n⟩ := acc
  rw [reduceAgainst_fst_eq]
  split_ifs
  · rfl
  · exact Mat3.row_setRow_of_ne _ _ hj

theorem reduceAgainst_normSq (r : Fin 3) (acc : Progress α × ℕ) (i : Fin 3) :
    (reduceAgainst r acc i).1.gs.normSq = acc.1.gs.normSq := by
  obtain ⟨p, n⟩ := acc
  rw [reduceAgainst_fst_eq]
  split_ifs <;> rfl

theorem step_current (hp : p.Current) (h : p.step o = .ok (p', ev)) : p'.Current := by
  by_cases hk : 2 ≤ p.k ∧ p.k ≤ 3
  · obtain ⟨r, lower, p₁, hr, hlower, hp₁, hcase⟩ := step_cases h hk
    have hr₀ : r ≠ 0 := fun h => by rw [h] at hr; simp at hr; omega
    have hk₁ : p₁.k = p.k := by rw [hp₁]; exact (sizeReduce_control _ r).1
    have h₁ : RowRecurrence p₁.basis p₁.gs 0 := by
      rw [hp₁]
      exact sizeReduce_preserves (fun p => RowRecurrence p.basis p.gs 0) r
        (fun _ _ q h => subtractMultiple_row₀ q hr₀ h) _ hp.row₀
    rcases hcase with ⟨-, rfl⟩ | ⟨-, gs, hgs, rfl⟩
    · -- an advance moves the pointer past `2`
      exact ⟨h₁, fun hk' => by simp only at hk'; omega⟩
    · -- a swap refreshes from the lower vector on, after a row `0` that already follows the
      -- recurrence of the exchanged basis
      have hrec : Recurrent (p₁.basis.swapRows r lower) gs 3 := by
        refine refreshFrom_recurrent (fun i hi => ?_) hgs
        obtain rfl : i = 0 := Fin.ext (by omega)
        have hl₀ : (0 : Fin 3) ≠ lower := fun h => by rw [← h] at hi; simp at hi
        exact h₁.congr (Mat3.row_swapRows_of_ne _ (Ne.symm hr₀) hl₀) rfl (fun _ _ => rfl)
          (fun _ _ => rfl)
      exact ⟨hrec 0 (by decide), fun _ => hrec⟩
  · rw [step_of_not_mem h hk]
    exact hp

theorem afterSteps_current (n : ℕ) {p q : Progress α} (hp : p.Current)
    (h : p.afterSteps o n = some q) : q.Current :=
  afterSteps_preserves o Current (fun _ _ _ hp _ hs => step_current hp hs) n p q hp h

theorem start_current {lattice : Mat3 α} {gs : GramSchmidt α} {tol : α}
    (h : compute lattice tol = .ok gs) :
    (⟨lattice, Mat3.identity, gs, 2, 0, 0⟩ : Progress α).Current :=
  ⟨compute_recurrent h 0 (by decide), fun _ => compute_recurrent h⟩

/-- From pointer `3` a step advances past the last vector or swaps back to `2`. -/
theorem step_k_of_three (hk : p.k = 3) (h : p.step o = .ok (p', ev)) : p'.k = 4 ∨ p'.k = 2 := by
  obtain ⟨r, lower, p₁, -, -, hp₁, hcase⟩ := step_cases h (by omega)
  have hk₁ : p₁.k = p.k := by rw [hp₁]; exact (sizeReduce_control _ r).1
  rcases hcase with ⟨-, rfl⟩ | ⟨-, gs, -, rfl⟩
  · exact .inl (by simp only; omega)
  · exact .inr (by simp only; split_ifs <;> omega)

/-- A loop from the head of a pass that leaves it does so by two advances from the head of its
last pass. -/
theorem afterSteps_exit (n : ℕ) : ∀ {p q : Progress α}, p.k = 2 → p.afterSteps o n = some q →
    3 < q.k → ∃ (m : ℕ) (p₂ p₃ : Progress α) (ev₂ ev₃ : StepEvent),
      p.afterSteps o m = some p₂ ∧ p₂.k = 2 ∧ p₂.step o = .ok (p₃, ev₂) ∧ p₃.k = 3 ∧
        p₃.step o = .ok (q, ev₃) := by
  induction n using Nat.strong_induction_on with
  | _ n ih =>
  intro p q hk h hq
  obtain _ | n := n
  · cases h
    omega
  cases hs : p.step o with
  | error c =>
    rw [afterSteps_succ_of_step_error (by omega) hs] at h
    cases h
  | ok a =>
  obtain ⟨p₁, ev₁⟩ := a
  rw [afterSteps_succ_of_step (by omega) hs] at h
  obtain ⟨-, hk₁, hk₁'⟩ := step_control hs (by omega)
  rcases (show p₁.k = 2 ∨ p₁.k = 3 by omega) with hk₁ | hk₁
  · -- a swap: the pass starts again
    obtain ⟨m, p₂, p₃, ev₂, ev₃, h₂, hrest⟩ := ih n (by omega) hk₁ h hq
    exact ⟨m + 1, p₂, p₃, ev₂, ev₃, by rw [afterSteps_succ_of_step (by omega) hs, h₂], hrest⟩
  · -- an advance: the next step leaves the loop or swaps back to the head of a pass
    obtain _ | n := n
    · cases h
      omega
    cases hs₁ : p₁.step o with
    | error c =>
      rw [afterSteps_succ_of_step_error (by omega) hs₁] at h
      cases h
    | ok b =>
    obtain ⟨p₂, ev₂⟩ := b
    rw [afterSteps_succ_of_step (by omega) hs₁] at h
    rcases step_k_of_three hk₁ hs₁ with hk₂ | hk₂
    · obtain _ | n := n
      · cases h
        exact ⟨0, p, p₁, ev₁, ev₂, rfl, hk, hs, hk₁, hs₁⟩
      · rw [afterSteps_succ_of_lt (by omega)] at h
        cases h
    · obtain ⟨m, p₂', p₃, ev₂', ev₃, h₂, hrest⟩ := ih n (by omega) hk₂ h hq
      refine ⟨m + 2, p₂', p₃, ev₂', ev₃, ?_, hrest⟩
      rw [afterSteps_succ_of_step (by omega) hs, afterSteps_succ_of_step (by omega) hs₁, h₂]

/-- An advance from pointer `2` size-reduces the second vector against the first, whose pair
then satisfies the Lovász test. -/
theorem step_advance_two (hk : p.k = 2) (h : p.step o = .ok (p', ev)) (hk' : p'.k = 3) :
    (reduceAgainst 1 ({ p with steps := p.steps + 1 }, 0) 0).1.lovaszHolds o.delta 1 0 = true ∧
      p' = { (reduceAgainst 1 ({ p with steps := p.steps + 1 }, 0) 0).1 with k := 3 } := by
  obtain ⟨r, lower, p₁, hr, hlower, hp₁, hcase⟩ := step_cases h (by omega)
  obtain rfl : r = 1 := Fin.ext (by omega)
  obtain rfl : lower = 0 := Fin.ext (by simp at hr ⊢; omega)
  have hk₁ : p₁.k = 2 := by rw [hp₁]; exact (sizeReduce_control _ 1).1.trans hk
  change p₁ = (reduceAgainst 1 (_, 0) 0).1 at hp₁
  rcases hcase with ⟨hl, rfl⟩ | ⟨-, gs, -, rfl⟩
  · subst hp₁
    exact ⟨hl, by rw [hk₁]⟩
  · simp [hk₁] at hk'

/-- An advance from pointer `3` size-reduces the third vector against the second and then the
first, and the last pair then satisfies the Lovász test. -/
theorem step_advance_three (hk : p.k = 3) (h : p.step o = .ok (p', ev)) (hk' : 3 < p'.k) :
    (reduceAgainst 2 (reduceAgainst 2 ({ p with steps := p.steps + 1 }, 0) 1) 0).1.lovaszHolds
        o.delta 2 1 = true ∧
      p' = { (reduceAgainst 2 (reduceAgainst 2 ({ p with steps := p.steps + 1 }, 0) 1) 0).1 with
        k := 4 } := by
  obtain ⟨r, lower, p₁, hr, hlower, hp₁, hcase⟩ := step_cases h (by omega)
  obtain rfl : r = 2 := Fin.ext (by omega)
  obtain rfl : lower = 1 := Fin.ext (by simp at hr ⊢; omega)
  have hk₁ : p₁.k = 3 := by rw [hp₁]; exact (sizeReduce_control _ 2).1.trans hk
  change p₁ = (reduceAgainst 2 (reduceAgainst 2 (_, 0) 1) 0).1 at hp₁
  rcases hcase with ⟨hl, rfl⟩ | ⟨-, gs, -, rfl⟩
  · subst hp₁
    exact ⟨hl, by rw [hk₁]⟩
  · simp [hk₁] at hk'

end Structure

section Binary64

open Binary64

/-- The multiple that size reduction takes for the coefficient `u`, as a real: nothing when
`|u| ≤ 1/2`, and otherwise the nearest integer to `u`. -/
noncomputable def multiple (u : Float) : ℝ :=
  if Float.abs u ≤ 0.5 then 0 else Binary64.real (roundHalfEven u)

variable {u : Float}

@[simp] theorem scalar_roundHalfEven_float (x : Float) :
    Scalar.roundHalfEven x = roundHalfEven x := rfl

theorem abs_real_le_half_of_value {x : Float} (h : |value x| ≤ 1 / 2) :
    |Binary64.real x| ≤ 1 / 2 := by
  have h' : ((|value x| : ℚ) : ℝ) ≤ ((1 / 2 : ℚ) : ℝ) := Rat.cast_le.mpr h
  simpa [Binary64.real] using h'

theorem abs_real_le_half (hu : u.isFinite = true) (h : Float.abs u ≤ 0.5) :
    |Binary64.real u| ≤ 1 / 2 :=
  abs_real_le_half_of_value ((abs_le_half_iff hu).mp h)

theorem abs_sub_multiple_le (hu : u.isFinite = true) :
    |Binary64.real u - multiple u| ≤ 1 / 2 := by
  unfold multiple
  split_ifs with h
  · rw [sub_zero]
    exact abs_real_le_half hu h
  · have h' : ((|value u - value (roundHalfEven u)| : ℚ) : ℝ) ≤ ((1 / 2 : ℚ) : ℝ) :=
      Rat.cast_le.mpr (abs_value_sub_roundHalfEven_le hu)
    simpa [Binary64.real] using h'

theorem abs_multiple_le (hu : u.isFinite = true) : |multiple u| ≤ |Binary64.real u| + 1 / 2 := by
  have h := abs_sub_multiple_le hu
  have := abs_sub_abs_le_abs_sub (multiple u) (Binary64.real u)
  rw [abs_sub_comm] at h
  linarith

variable {acc : Progress Float × ℕ} {r i : Fin 3}

variable (acc) in
/-- Size reduction of vector `r` against vector `i` in binary64 takes `multiple u` times vector
`i` from vector `r`, up to three roundings. -/
theorem reduceAgainst_row_near (hu : (acc.1.gs.coeff.get r i).isFinite = true)
    (hb : (acc.1.basis.row r).IsFinite) (hw : (acc.1.basis.row i).IsFinite)
    (hB : ‖(acc.1.basis.row r).real‖ ≤ 2 ^ 60) (hW : ‖(acc.1.basis.row i).real‖ ≤ 2 ^ 60)
    (hU : |Binary64.real (acc.1.gs.coeff.get r i)| ≤ 2 ^ 59) :
    ((reduceAgainst r acc i).1.basis.row r).IsFinite ∧
      ‖((reduceAgainst r acc i).1.basis.row r).real - ((acc.1.basis.row r).real -
          multiple (acc.1.gs.coeff.get r i) • (acc.1.basis.row i).real)‖ ≤
        3 * (‖(acc.1.basis.row r).real‖ +
          |multiple (acc.1.gs.coeff.get r i)| * ‖(acc.1.basis.row i).real‖) / 2 ^ 53 +
            5 * underflow := by
  obtain ⟨p, n⟩ := acc
  dsimp only at hu hb hw hB hW hU ⊢
  have hη := underflow_nonneg
  rw [reduceAgainst_fst_eq, scalar_le_float, scalar_abs_float]
  by_cases h : Float.abs (p.gs.coeff.get r i) ≤ 0.5
  · have hm : multiple (p.gs.coeff.get r i) = 0 := if_pos h
    simp only [h, decide_true, if_true, hm, zero_smul, sub_zero, sub_self, norm_zero, abs_zero,
      zero_mul, add_zero]
    exact ⟨hb, by positivity⟩
  · obtain ⟨hq, hqv⟩ := roundHalfEven_value hu
    have hm : multiple (p.gs.coeff.get r i) = Binary64.real (roundHalfEven (p.gs.coeff.get r i)) :=
      if_neg h
    have hQ : |Binary64.real (roundHalfEven (p.gs.coeff.get r i))| ≤ 2 ^ 60 := by
      have := abs_multiple_le hu
      rw [hm] at this
      linarith [show (2 : ℝ) ^ 59 + 1 / 2 ≤ 2 ^ 60 by norm_num]
    simp only [h, decide_false, Bool.false_eq_true, if_false, subtractMultiple,
      Mat3.row_setRow_self, hm, scalar_roundHalfEven_float]
    have := Vec3.norm_sub_scale_sub_le (Binary64.real (roundHalfEven (p.gs.coeff.get r i))) hw hb
      hq hW hB hQ
    simpa only [sub_self, abs_zero, zero_mul, zero_add] using this

variable (acc) in
/-- The coefficient size reduction leaves is finite, at most one half, and within a rounding of
`u - multiple u`. -/
theorem reduceAgainst_coeff_self_near (hu : (acc.1.gs.coeff.get r i).isFinite = true) :
    ((reduceAgainst r acc i).1.gs.coeff.get r i).isFinite = true ∧
      |Binary64.real ((reduceAgainst r acc i).1.gs.coeff.get r i)| ≤ 1 / 2 ∧
      |Binary64.real ((reduceAgainst r acc i).1.gs.coeff.get r i) -
          (Binary64.real (acc.1.gs.coeff.get r i) - multiple (acc.1.gs.coeff.get r i))| ≤
        1 / 2 ^ 53 := by
  obtain ⟨p, n⟩ := acc
  dsimp only at hu ⊢
  rw [reduceAgainst_coeff_get_self, scalar_le_float, scalar_abs_float]
  by_cases h : Float.abs (p.gs.coeff.get r i) ≤ 0.5
  · have hm : multiple (p.gs.coeff.get r i) = 0 := if_pos h
    simp only [h, decide_true, if_true, hm, sub_zero, sub_self, abs_zero]
    exact ⟨hu, abs_real_le_half hu h, by positivity⟩
  · have hm : multiple (p.gs.coeff.get r i) = Binary64.real (roundHalfEven (p.gs.coeff.get r i)) :=
      if_neg h
    simp only [h, decide_false, Bool.false_eq_true, if_false, hm, scalar_roundHalfEven_float]
    obtain ⟨hf, hv⟩ := sub_roundHalfEven_value hu
    have hd : |Binary64.real (p.gs.coeff.get r i) -
        Binary64.real (roundHalfEven (p.gs.coeff.get r i))| ≤ 1 / 2 := by
      rw [← hm]
      exact abs_sub_multiple_le hu
    have hround := (rounds_sub hu (roundHalfEven_value hu).1
      (hd.trans (le_trans (by norm_num) (one_le_pow₀ (by norm_num))))).abs_sub_le
    have hη := underflow_le_tiny
    refine ⟨hf, abs_real_le_half_of_value hv, hround.trans ?_⟩
    have : |Binary64.real (p.gs.coeff.get r i) -
        Binary64.real (roundHalfEven (p.gs.coeff.get r i))| /
        2 ^ 53 ≤ 1 / 2 / 2 ^ 53 := by gcongr
    have e : (1 : ℝ) / 2 / 2 ^ 53 + 1 / 2 ^ 54 = 1 / 2 ^ 53 := by norm_num
    linarith

variable (acc) in
/-- The cross update of an earlier coefficient, `μᵣⱼ - q μᵢⱼ`, is within two roundings of its
exact value. -/
theorem reduceAgainst_coeff_cross_near {j : Fin 3} (hji : j < i)
    (hu : (acc.1.gs.coeff.get r i).isFinite = true) (hx : (acc.1.gs.coeff.get r j).isFinite = true)
    (hy : (acc.1.gs.coeff.get i j).isFinite = true)
    (hU : |Binary64.real (acc.1.gs.coeff.get r i)| ≤ 2 ^ 59)
    (hX : |Binary64.real (acc.1.gs.coeff.get r j)| ≤ 2 ^ 60)
    (hY : |Binary64.real (acc.1.gs.coeff.get i j)| ≤ 2 ^ 60) :
    ((reduceAgainst r acc i).1.gs.coeff.get r j).isFinite = true ∧
      |Binary64.real ((reduceAgainst r acc i).1.gs.coeff.get r j) -
          (Binary64.real (acc.1.gs.coeff.get r j) -
            multiple (acc.1.gs.coeff.get r i) * Binary64.real (acc.1.gs.coeff.get i j))| ≤
        (|Binary64.real (acc.1.gs.coeff.get r j)| + 3 * (|multiple (acc.1.gs.coeff.get r i)| *
          |Binary64.real (acc.1.gs.coeff.get i j)|)) / 2 ^ 53 + 3 * underflow := by
  obtain ⟨p, n⟩ := acc
  dsimp only at hu hx hy hU hX hY ⊢
  have hη := underflow_nonneg
  rw [reduceAgainst_coeff_get_of_gt hji, scalar_le_float, scalar_abs_float]
  by_cases h : Float.abs (p.gs.coeff.get r i) ≤ 0.5
  · have hm : multiple (p.gs.coeff.get r i) = 0 := if_pos h
    simp only [h, decide_true, if_true, hm, zero_mul, sub_zero, sub_self, abs_zero]
    exact ⟨hx, by positivity⟩
  · have hm : multiple (p.gs.coeff.get r i) = Binary64.real (roundHalfEven (p.gs.coeff.get r i)) :=
      if_neg h
    simp only [h, decide_false, Bool.false_eq_true, if_false, scalar_roundHalfEven_float]
    rw [hm]
    set x := p.gs.coeff.get r j
    set y := p.gs.coeff.get i j
    have hqf := (roundHalfEven_value hu).1
    generalize roundHalfEven (p.gs.coeff.get r i) = q at hm hqf ⊢
    have hQ : |Binary64.real q| ≤ 2 ^ 60 := by
      have := abs_multiple_le hu
      rw [hm] at this
      linarith [show (2 : ℝ) ^ 59 + 1 / 2 ≤ 2 ^ 60 by norm_num]
    have hQY : |Binary64.real q * Binary64.real y| ≤ 2 ^ 120 := by
      rw [abs_mul]
      calc _ ≤ 2 ^ 60 * 2 ^ 60 := mul_le_mul hQ hY (abs_nonneg _) (by positivity)
        _ = 2 ^ 120 := by rw [← pow_add]
    have hmul := rounds_mul hqf hy (hQY.trans (pow_le_pow_right₀ (by norm_num) (by norm_num)))
    have hmul' := hmul.abs_sub_le
    rw [abs_mul] at hmul'
    have hsmall :
        |Binary64.real q| * |Binary64.real y| / 2 ^ 53 ≤ |Binary64.real q| * |Binary64.real y| :=
      div_le_self (by positivity) (by norm_num)
    have hη₁ := underflow_le_one
    have hT : |Binary64.real (q * y)| ≤ 2 ^ 122 := by
      have := abs_sub_abs_le_abs_sub (Binary64.real (q * y)) (Binary64.real q * Binary64.real y)
      rw [abs_mul] at this hQY
      linarith
    have hD : |Binary64.real x - Binary64.real (q * y)| ≤ 2 ^ 1023 := by
      calc _ ≤ |Binary64.real x| + |Binary64.real (q * y)| := abs_sub _ _
        _ ≤ 2 ^ 123 := by linarith
        _ ≤ 2 ^ 1023 := pow_le_pow_right₀ (by norm_num) (by norm_num)
    have hsub := rounds_sub hx hmul.isFinite hD
    refine ⟨hsub.isFinite, ?_⟩
    have hs := hsub.abs_sub_le
    have hD' : |Binary64.real x - Binary64.real (q * y)| ≤
        |Binary64.real x| + (|Binary64.real q| * |Binary64.real y| +
          (|Binary64.real q| * |Binary64.real y| / 2 ^ 53 + underflow)) := by
      have := abs_sub (Binary64.real x) (Binary64.real (q * y))
      have := abs_sub_abs_le_abs_sub (Binary64.real (q * y)) (Binary64.real q * Binary64.real y)
      rw [abs_mul] at this
      linarith
    have hsplit :
        Binary64.real (x - q * y) - (Binary64.real x - Binary64.real q * Binary64.real y) =
        (Binary64.real (x - q * y) - (Binary64.real x - Binary64.real (q * y))) -
          (Binary64.real (q * y) - Binary64.real q * Binary64.real y) := by ring
    rw [hsplit]
    refine (abs_sub _ _).trans ?_
    have h53 : (|Binary64.real x| + (|Binary64.real q| * |Binary64.real y| +
        (|Binary64.real q| * |Binary64.real y| / 2 ^ 53 + underflow))) / 2 ^ 53 ≤
        (|Binary64.real x| + 2 * (|Binary64.real q| * |Binary64.real y|)) / 2 ^ 53 + underflow := by
      rw [div_le_iff₀ (by positivity)]
      have : underflow ≤ underflow * 2 ^ 53 := le_mul_of_one_le_right hη (by norm_num)
      nlinarith
    have := div_le_div_of_nonneg_right hD' (show (0 : ℝ) ≤ 2 ^ 53 by positivity)
    linarith

section Advances

open CrystalLattice.Mat3

variable {acc : Progress Float × ℕ} {A : Mat3 Float}

variable (acc) in
/-- Size reduction of the second vector against the first takes at most three times the first
from it, up to an error far below a rounding of any exact orthogonal vector. -/
theorem reduceAgainst_one_zero_near (hA : acc.1.basis.WellConditioned)
    (hG : NearExact acc.1.basis acc.1.gs) :
    ((reduceAgainst 1 acc 0).1.basis.row 1).IsFinite ∧ |multiple (acc.1.gs.coeff.get 1 0)| ≤ 3 ∧
      ∀ j, ‖((reduceAgainst 1 acc 0).1.basis.row 1).real - ((acc.1.basis.row 1).real -
        multiple (acc.1.gs.coeff.get 1 0) • (acc.1.basis.row 0).real)‖ ≤
          ‖acc.1.basis.exactOrtho j‖ / 2 ^ 47 := by
  have hu := hG.coeff_finite 1 0 (by decide)
  have hU : |Binary64.real (acc.1.gs.coeff.get 1 0)| ≤ 5 / 2 := by
    have h₁ := hG.coeff_near 1 0 (by decide)
    have h₂ := hA.abs_exactCoeff_le 1 0
    have := abs_sub_abs_le_abs_sub (Binary64.real (acc.1.gs.coeff.get 1 0))
      (acc.1.basis.exactCoeff 1 0)
    linarith [show (1 : ℝ) / 2 ^ 38 ≤ 1 / 2 by norm_num]
  have hm : |multiple (acc.1.gs.coeff.get 1 0)| ≤ 3 := by
    have := abs_multiple_le hu
    linarith
  obtain ⟨hf, herr⟩ := reduceAgainst_row_near acc hu (hA.finite 1) (hA.finite 0)
    (hA.balanced.row_mem 1).2 (hA.balanced.row_mem 0).2 (hU.trans (by norm_num))
  refine ⟨hf, hm, fun j => herr.trans ?_⟩
  have hmul : |multiple (acc.1.gs.coeff.get 1 0)| * ‖(acc.1.basis.row 0).real‖ ≤
      3 * (2 * ‖acc.1.basis.exactOrtho j‖) :=
    mul_le_mul hm (hA.row_le 0 j) (norm_nonneg _) (by norm_num)
  have hS : ‖(acc.1.basis.row 1).real‖ + |multiple (acc.1.gs.coeff.get 1 0)| *
      ‖(acc.1.basis.row 0).real‖ ≤ 8 * ‖acc.1.basis.exactOrtho j‖ := by
    linarith [hA.row_le 1 j]
  calc _ ≤ (3 * 8 + 1) * (‖acc.1.basis.exactOrtho j‖ / 2 ^ 53) :=
        roundings_le (norm_nonneg _) hS (hA.balanced.underflow_le j).1
    _ ≤ ‖acc.1.basis.exactOrtho j‖ / 2 ^ 47 := by
        have e : ‖acc.1.basis.exactOrtho j‖ / 2 ^ 47 =
            64 * (‖acc.1.basis.exactOrtho j‖ / 2 ^ 53) := by
          ring
        rw [e]
        gcongr
        norm_num

section Third

variable (hu₂₁ : (acc.1.gs.coeff.get 2 1).isFinite = true)
  (hU₂₁ : |Binary64.real (acc.1.gs.coeff.get 2 1)| ≤ 3)
  (hu₂₀ : (acc.1.gs.coeff.get 2 0).isFinite = true)
  (hU₂₀ : |Binary64.real (acc.1.gs.coeff.get 2 0)| ≤ 3)
  (hv : (acc.1.gs.coeff.get 1 0).isFinite = true)
  (hV : |Binary64.real (acc.1.gs.coeff.get 1 0)| ≤ 1 / 2)
include hu₂₁ hU₂₁ hu₂₀ hU₂₀ hv hV

/-- Reducing the third vector against the second updates its first coefficient to within a few
roundings of `μ₂₀ - m₂₁ μ₁₀`. -/
theorem reduceAgainst_two_one_cross_near :
    ((reduceAgainst 2 acc 1).1.gs.coeff.get 2 0).isFinite = true ∧
      |Binary64.real ((reduceAgainst 2 acc 1).1.gs.coeff.get 2 0) -
        (Binary64.real (acc.1.gs.coeff.get 2 0) - multiple (acc.1.gs.coeff.get 2 1) *
          Binary64.real (acc.1.gs.coeff.get 1 0))| ≤ 1 / 2 ^ 49 := by
  have hm := abs_multiple_le hu₂₁
  obtain ⟨hf, h⟩ := reduceAgainst_coeff_cross_near acc (r := 2) (i := 1) (j := 0)
    (by decide) hu₂₁ hu₂₀ hv (hU₂₁.trans (by norm_num)) (hU₂₀.trans (by norm_num))
    (hV.trans (by norm_num))
  refine ⟨hf, h.trans ?_⟩
  have hη := underflow_le_tiny
  have hp : |multiple (acc.1.gs.coeff.get 2 1)| * |Binary64.real (acc.1.gs.coeff.get 1 0)| ≤
      4 * (1 / 2) := mul_le_mul (by linarith) hV (abs_nonneg _) (by norm_num)
  have hs : (|Binary64.real (acc.1.gs.coeff.get 2 0)| + 3 * (|multiple (acc.1.gs.coeff.get 2 1)| *
      |Binary64.real (acc.1.gs.coeff.get 1 0)|)) / 2 ^ 53 ≤ 9 / 2 ^ 53 :=
    div_le_div_of_nonneg_right (by linarith) (by positivity)
  have : (9 : ℝ) / 2 ^ 53 + 3 * (1 / 2 ^ 54) ≤ 1 / 2 ^ 49 := by norm_num
  linarith

omit hu₂₀ hU₂₀ hv hV in
theorem abs_multiple_two_one_le : |multiple (acc.1.gs.coeff.get 2 1)| ≤ 4 := by
  have := abs_multiple_le hu₂₁
  linarith

theorem abs_multiple_two_zero_le :
    |multiple ((reduceAgainst 2 acc 1).1.gs.coeff.get 2 0)| ≤ 7 := by
  obtain ⟨hf, h⟩ := reduceAgainst_two_one_cross_near hu₂₁ hU₂₁ hu₂₀ hU₂₀ hv hV
  have hm := abs_multiple_two_one_le hu₂₁ hU₂₁
  have hp : |multiple (acc.1.gs.coeff.get 2 1) * Binary64.real (acc.1.gs.coeff.get 1 0)| ≤
      4 * (1 / 2) := by
    rw [abs_mul]
    exact mul_le_mul hm hV (abs_nonneg _) (by norm_num)
  have h₁ := abs_sub_abs_le_abs_sub (Binary64.real ((reduceAgainst 2 acc 1).1.gs.coeff.get 2 0))
    (Binary64.real (acc.1.gs.coeff.get 2 0) - multiple (acc.1.gs.coeff.get 2 1) *
      Binary64.real (acc.1.gs.coeff.get 1 0))
  have h₂ := abs_sub (Binary64.real (acc.1.gs.coeff.get 2 0))
    (multiple (acc.1.gs.coeff.get 2 1) * Binary64.real (acc.1.gs.coeff.get 1 0))
  have h₃ := abs_multiple_le hf
  have : (1 : ℝ) / 2 ^ 49 ≤ 1 / 2 := by norm_num
  linarith

omit hU₂₁ hu₂₀ hU₂₀ hv hV in
/-- After both reductions the coefficient against the second vector is at most one half and
within a rounding of `μ₂₁ - m₂₁`. -/
theorem reduceAgainst_two_coeff_two_one_near :
    ((reduceAgainst 2 (reduceAgainst 2 acc 1) 0).1.gs.coeff.get 2 1).isFinite = true ∧
      |Binary64.real ((reduceAgainst 2 (reduceAgainst 2 acc 1) 0).1.gs.coeff.get 2 1)| ≤ 1 / 2 ∧
      |Binary64.real ((reduceAgainst 2 (reduceAgainst 2 acc 1) 0).1.gs.coeff.get 2 1) -
          (Binary64.real (acc.1.gs.coeff.get 2 1) - multiple (acc.1.gs.coeff.get 2 1))| ≤
        1 / 2 ^ 53 := by
  have e := reduceAgainst_coeff_get_of_lt (r := 2) (show (0 : Fin 3) < 1 by decide)
    (reduceAgainst 2 acc 1).1 (reduceAgainst 2 acc 1).2
  simp only [Prod.mk.eta] at e
  rw [e]
  exact reduceAgainst_coeff_self_near acc hu₂₁

/-- After both reductions the coefficient against the first vector is at most one half and
within a few roundings of `μ₂₀ - m₂₁ μ₁₀ - m₂₀`. -/
theorem reduceAgainst_two_coeff_two_zero_near :
    ((reduceAgainst 2 (reduceAgainst 2 acc 1) 0).1.gs.coeff.get 2 0).isFinite = true ∧
      |Binary64.real ((reduceAgainst 2 (reduceAgainst 2 acc 1) 0).1.gs.coeff.get 2 0)| ≤ 1 / 2 ∧
      |Binary64.real ((reduceAgainst 2 (reduceAgainst 2 acc 1) 0).1.gs.coeff.get 2 0) -
          (Binary64.real (acc.1.gs.coeff.get 2 0) - multiple (acc.1.gs.coeff.get 2 1) *
            Binary64.real (acc.1.gs.coeff.get 1 0) -
              multiple ((reduceAgainst 2 acc 1).1.gs.coeff.get 2 0))| ≤ 1 / 2 ^ 48 := by
  obtain ⟨hf, hx⟩ := reduceAgainst_two_one_cross_near hu₂₁ hU₂₁ hu₂₀ hU₂₀ hv hV
  obtain ⟨hf', hhalf, hw⟩ := reduceAgainst_coeff_self_near (reduceAgainst 2 acc 1) hf
  refine ⟨hf', hhalf, ?_⟩
  have hsplit := abs_sub_le
    (Binary64.real ((reduceAgainst 2 (reduceAgainst 2 acc 1) 0).1.gs.coeff.get 2 0))
    (Binary64.real ((reduceAgainst 2 acc 1).1.gs.coeff.get 2 0) -
      multiple ((reduceAgainst 2 acc 1).1.gs.coeff.get 2 0))
    (Binary64.real (acc.1.gs.coeff.get 2 0) - multiple (acc.1.gs.coeff.get 2 1) *
      Binary64.real (acc.1.gs.coeff.get 1 0) -
        multiple ((reduceAgainst 2 acc 1).1.gs.coeff.get 2 0))
  rw [sub_sub_sub_cancel_right] at hsplit
  have : (1 : ℝ) / 2 ^ 53 + 1 / 2 ^ 49 ≤ 1 / 2 ^ 48 := by norm_num
  linarith

/-- The two size reductions of the third vector take `m₂₁` times the second and `m₂₀` times the
first from it, up to an error far below a rounding of any exact orthogonal vector. -/
theorem reduceAgainst_two_row_near (hA : A.WellConditioned) (h₀ : acc.1.basis.row 0 = A.row 0)
    (h₂ : acc.1.basis.row 2 = A.row 2) (hb₁ : (acc.1.basis.row 1).IsFinite)
    (hB₁ : ∀ j, ‖(acc.1.basis.row 1).real‖ ≤ 9 * ‖A.exactOrtho j‖) :
    ((reduceAgainst 2 (reduceAgainst 2 acc 1) 0).1.basis.row 2).IsFinite ∧
      ∀ j, ‖((reduceAgainst 2 (reduceAgainst 2 acc 1) 0).1.basis.row 2).real -
        ((A.row 2).real - multiple (acc.1.gs.coeff.get 2 1) • (acc.1.basis.row 1).real -
          multiple ((reduceAgainst 2 acc 1).1.gs.coeff.get 2 0) • (A.row 0).real)‖ ≤
            ‖A.exactOrtho j‖ / 2 ^ 44 := by
  have hm₂₁ := abs_multiple_two_one_le hu₂₁ hU₂₁
  have hm₂₀ := abs_multiple_two_zero_le hu₂₁ hU₂₁ hu₂₀ hU₂₀ hv hV
  obtain ⟨hxf, -⟩ := reduceAgainst_two_one_cross_near hu₂₁ hU₂₁ hu₂₀ hU₂₀ hv hV
  have hX : |Binary64.real ((reduceAgainst 2 acc 1).1.gs.coeff.get 2 0)| ≤ 2 ^ 59 := by
    have h₁ := abs_sub_multiple_le hxf
    have h₂ := abs_sub_abs_le_abs_sub (Binary64.real ((reduceAgainst 2 acc 1).1.gs.coeff.get 2 0))
      (multiple ((reduceAgainst 2 acc 1).1.gs.coeff.get 2 0))
    linarith [show (7 : ℝ) + 1 / 2 ≤ 2 ^ 59 by norm_num]
  have hA₀ := (hA.balanced.row_mem 0).2
  have hA₂ := (hA.balanced.row_mem 2).2
  have hy₀ : ‖A.exactOrtho 0‖ ≤ 2 ^ 50 := (hA.balanced.ortho_le_row 0).trans (hA.row_le_top 0)
  have hB₁top : ‖(acc.1.basis.row 1).real‖ ≤ 2 ^ 60 :=
    (hB₁ 0).trans (by linarith [show (9 : ℝ) * 2 ^ 50 ≤ 2 ^ 60 by norm_num])
  have hmB₁ : ∀ j, |multiple (acc.1.gs.coeff.get 2 1)| * ‖(acc.1.basis.row 1).real‖ ≤
      4 * (9 * ‖A.exactOrtho j‖) := fun j => mul_le_mul hm₂₁ (hB₁ j) (norm_nonneg _) (by norm_num)
  -- the reduction against the second vector, on rows of total size at most `38 Y`
  obtain ⟨hf₁, herr₁⟩ := reduceAgainst_row_near acc (r := 2) (i := 1) hu₂₁
    (h₂ ▸ hA.finite 2) hb₁ (by rw [h₂]; exact hA₂) hB₁top (hU₂₁.trans (by norm_num))
  rw [h₂] at herr₁
  have herr₁' : ∀ j, ‖((reduceAgainst 2 acc 1).1.basis.row 2).real -
      ((A.row 2).real - multiple (acc.1.gs.coeff.get 2 1) • (acc.1.basis.row 1).real)‖ ≤
        (3 * 38 + 1) * (‖A.exactOrtho j‖ / 2 ^ 53) := by
    intro j
    have hS : ‖(A.row 2).real‖ + |multiple (acc.1.gs.coeff.get 2 1)| *
        ‖(acc.1.basis.row 1).real‖ ≤ 38 * ‖A.exactOrtho j‖ := by
      linarith [hA.row_le 2 j, hmB₁ j]
    exact herr₁.trans (roundings_le (norm_nonneg _) hS (hA.balanced.underflow_le j).1)
  have hB₂' : ∀ j, ‖((reduceAgainst 2 acc 1).1.basis.row 2).real‖ ≤ 39 * ‖A.exactOrtho j‖ := by
    intro j
    have h := Euclidean.norm_le_of_norm_sub_sub_smul_le (herr₁' j)
    have hsmall : ‖A.exactOrtho j‖ / 2 ^ 53 ≤ ‖A.exactOrtho j‖ / 115 :=
      div_le_div_of_nonneg_left (norm_nonneg _) (by norm_num) (by norm_num)
    linarith [hA.row_le 2 j, hmB₁ j]
  have hB₂'top : ‖((reduceAgainst 2 acc 1).1.basis.row 2).real‖ ≤ 2 ^ 60 :=
    (hB₂' 0).trans (by linarith [show (39 : ℝ) * 2 ^ 50 ≤ 2 ^ 60 by norm_num])
  -- the reduction against the first vector, on rows of total size at most `53 Y`
  have hr₀ : (reduceAgainst 2 acc 1).1.basis.row 0 = A.row 0 := by
    rw [reduceAgainst_row_of_ne (by decide), h₀]
  obtain ⟨hf₂, herr₂⟩ := reduceAgainst_row_near (reduceAgainst 2 acc 1) (r := 2) (i := 0)
    hxf hf₁ (hr₀ ▸ hA.finite 0) hB₂'top (by rw [hr₀]; exact hA₀) hX
  rw [hr₀] at herr₂
  refine ⟨hf₂, fun j => ?_⟩
  have hm₀ : |multiple ((reduceAgainst 2 acc 1).1.gs.coeff.get 2 0)| * ‖(A.row 0).real‖ ≤
      7 * (2 * ‖A.exactOrtho j‖) := mul_le_mul hm₂₀ (hA.row_le 0 j) (norm_nonneg _) (by norm_num)
  have hS : ‖((reduceAgainst 2 acc 1).1.basis.row 2).real‖ +
      |multiple ((reduceAgainst 2 acc 1).1.gs.coeff.get 2 0)| * ‖(A.row 0).real‖ ≤
        53 * ‖A.exactOrtho j‖ := by
    linarith [hB₂' j]
  have herr₂' := herr₂.trans (roundings_le (norm_nonneg _) hS (hA.balanced.underflow_le j).1)
  have hsplit : ((reduceAgainst 2 (reduceAgainst 2 acc 1) 0).1.basis.row 2).real -
      ((A.row 2).real - multiple (acc.1.gs.coeff.get 2 1) • (acc.1.basis.row 1).real -
        multiple ((reduceAgainst 2 acc 1).1.gs.coeff.get 2 0) • (A.row 0).real) =
      (((reduceAgainst 2 (reduceAgainst 2 acc 1) 0).1.basis.row 2).real -
        (((reduceAgainst 2 acc 1).1.basis.row 2).real -
          multiple ((reduceAgainst 2 acc 1).1.gs.coeff.get 2 0) • (A.row 0).real)) +
      (((reduceAgainst 2 acc 1).1.basis.row 2).real -
        ((A.row 2).real - multiple (acc.1.gs.coeff.get 2 1) • (acc.1.basis.row 1).real)) := by
    abel
  rw [hsplit]
  refine (norm_add_le _ _).trans ?_
  -- `160 Y / 2⁵³` and `115 Y / 2⁵³` from the two reductions, against `512 Y / 2⁵³`
  have e : ‖A.exactOrtho j‖ / 2 ^ 44 = 512 * (‖A.exactOrtho j‖ / 2 ^ 53) := by ring
  rw [e]
  linarith [herr₁' j, norm_nonneg (A.exactOrtho j)]

end Third

end Advances

section Exit

open CrystalLattice.Mat3

variable {o : Options Float} {p p₃ q : Progress Float} {ev₂ ev₃ : StepEvent}

/-- What the loop leaves at its exit, against the head `p` of its last pass: the exact
orthogonal vectors have barely moved, the coefficients kept are finite, at most one half and
near those of the exact orthogonalisation of the new basis, the squared lengths are those of the
head, and both Lovász tests passed. -/
structure ExitNear (δ : Float) (p q : Progress Float) : Prop where
  finite : ∀ i, (q.basis.row i).IsFinite
  ortho_near : ∀ j, ‖q.basis.exactOrtho j - p.basis.exactOrtho j‖ ≤ ‖p.basis.exactOrtho j‖ / 2 ^ 40
  coeff_finite : ∀ i j : Fin 3, j < i → (q.gs.coeff.get i j).isFinite = true
  coeff_half : ∀ i j : Fin 3, j < i → |Binary64.real (q.gs.coeff.get i j)| ≤ 1 / 2
  coeff_near : ∀ i j : Fin 3, j < i →
    |q.basis.exactCoeff i j - Binary64.real (q.gs.coeff.get i j)| ≤ 1 / 2 ^ 34
  coeff_near_adjacent : ∀ i j : Fin 3, j.val + 1 = i.val →
    |q.basis.exactCoeff i j - Binary64.real (q.gs.coeff.get i j)| ≤ 1 / 2 ^ 37
  normSq_eq : q.gs.normSq = p.gs.normSq
  lovasz : ∀ i j : Fin 3, j.val + 1 = i.val → q.lovaszHolds δ i j = true

theorem abs_le_three_of_near {c : Float} {μ : ℝ} (hc : |Binary64.real c - μ| ≤ 1 / 2 ^ 38)
    (hμ : |μ| ≤ 2) : |Binary64.real c| ≤ 3 := by
  have := abs_sub_abs_le_abs_sub (Binary64.real c) μ
  linarith [show (1 : ℝ) / 2 ^ 38 ≤ 1 by norm_num]

/-- Two advances from the head of a well-conditioned pass leave the loop near exact arithmetic. -/
theorem exitNear (hp : p.Current) (hk : p.k = 2) (hA : p.basis.WellConditioned)
    (h₂ : p.step o = .ok (p₃, ev₂)) (hk₃ : p₃.k = 3) (h₃ : p₃.step o = .ok (q, ev₃))
    (hq : 3 < q.k) : ExitNear o.delta p q := by
  have hG : NearExact p.basis p.gs := (hp.head hk).nearExact hA.balanced
  obtain ⟨hl₂, rfl⟩ := step_advance_two hk h₂ hk₃
  obtain ⟨hl₃, rfl⟩ := step_advance_three hk₃ h₃ hq
  -- the first advance reduces the second vector
  obtain ⟨hb₁, hm₁, he₁⟩ := reduceAgainst_one_zero_near
    ({ p with steps := p.steps + 1 }, 0) hA hG
  obtain ⟨hvf, hvh, hv⟩ := reduceAgainst_coeff_self_near
    ({ p with steps := p.steps + 1 }, 0) (r := 1) (i := 0) (hG.coeff_finite 1 0 (by decide))
  generalize hP₁ : (reduceAgainst 1 ({ p with steps := p.steps + 1 }, 0) 0).1 = P₁ at *
  have hP₁₀ : P₁.basis.row 0 = p.basis.row 0 := by
    rw [← hP₁, reduceAgainst_row_of_ne (by decide)]
  have hP₁₂ : P₁.basis.row 2 = p.basis.row 2 := by
    rw [← hP₁, reduceAgainst_row_of_ne (by decide)]
  have hP₁c : P₁.gs.coeff.row 2 = p.gs.coeff.row 2 := by
    rw [← hP₁, reduceAgainst_coeff_row_of_ne (by decide)]
  have hP₁n : P₁.gs.normSq = p.gs.normSq := by rw [← hP₁, reduceAgainst_normSq]
  have hu₂₁ : P₁.gs.coeff.get 2 1 = p.gs.coeff.get 2 1 := by rw [Mat3.get_def, hP₁c]; rfl
  have hu₂₀ : P₁.gs.coeff.get 2 0 = p.gs.coeff.get 2 0 := by rw [Mat3.get_def, hP₁c]; rfl
  -- the second vector is at most nine times as long as any exact orthogonal vector
  have hB₁ : ∀ j, ‖(P₁.basis.row 1).real‖ ≤ 9 * ‖p.basis.exactOrtho j‖ := by
    intro j
    have h := Euclidean.norm_le_of_norm_sub_sub_smul_le (he₁ j)
    have hm := mul_le_mul hm₁ (hA.row_le 0 j) (norm_nonneg _) (by norm_num)
    have hsmall : ‖p.basis.exactOrtho j‖ / 2 ^ 47 ≤ ‖p.basis.exactOrtho j‖ :=
      div_le_self (norm_nonneg _) (by norm_num)
    linarith [hA.row_le 1 j]
  -- the second advance reduces the third vector against the second and then the first
  have hU₂₁ : |Binary64.real (P₁.gs.coeff.get 2 1)| ≤ 3 := by
    rw [hu₂₁]
    exact abs_le_three_of_near (hG.coeff_near 2 1 (by decide)) (hA.abs_exactCoeff_le 2 1)
  have hU₂₀ : |Binary64.real (P₁.gs.coeff.get 2 0)| ≤ 3 := by
    rw [hu₂₀]
    exact abs_le_three_of_near (hG.coeff_near 2 0 (by decide)) (hA.abs_exactCoeff_le 2 0)
  have hf₂₁ : (P₁.gs.coeff.get 2 1).isFinite = true := hu₂₁ ▸ hG.coeff_finite 2 1 (by decide)
  have hf₂₀ : (P₁.gs.coeff.get 2 0).isFinite = true := hu₂₀ ▸ hG.coeff_finite 2 0 (by decide)
  generalize hacc : ({ { P₁ with k := 3 } with steps := P₁.steps + 1 }, 0) = acc at *
  have hgs : acc.1.gs = P₁.gs := by rw [← hacc]
  have hbasis : acc.1.basis = P₁.basis := by rw [← hacc]
  rw [← hgs] at hf₂₁ hU₂₁ hf₂₀ hU₂₀ hvf hvh
  rw [← hbasis] at hP₁₀ hP₁₂ hb₁ hB₁
  obtain ⟨hb₂, he₂⟩ := reduceAgainst_two_row_near hf₂₁ hU₂₁ hf₂₀ hU₂₀ hvf hvh hA hP₁₀ hP₁₂ hb₁ hB₁
  obtain ⟨hwf₁, hwh₁, hw₁⟩ := reduceAgainst_two_coeff_two_one_near hf₂₁
  obtain ⟨hwf₀, hwh₀, hw₀⟩ := reduceAgainst_two_coeff_two_zero_near hf₂₁ hU₂₁ hf₂₀ hU₂₀ hvf hvh
  have hm₂₁ := abs_multiple_two_one_le hf₂₁ hU₂₁
  generalize hQ₁ : reduceAgainst 2 acc 1 = Q₁ at *
  generalize hP₂ : (reduceAgainst 2 Q₁ 0).1 = P₂ at *
  have hP₂₀ : P₂.basis.row 0 = p.basis.row 0 := by
    rw [← hP₂, reduceAgainst_row_of_ne (by decide), ← hQ₁, reduceAgainst_row_of_ne (by decide)]
    exact hP₁₀
  have hP₂₁ : P₂.basis.row 1 = acc.1.basis.row 1 := by
    rw [← hP₂, reduceAgainst_row_of_ne (by decide), ← hQ₁, reduceAgainst_row_of_ne (by decide)]
  have hP₂c : P₂.gs.coeff.get 1 0 = P₁.gs.coeff.get 1 0 := by
    rw [Mat3.get_def, Mat3.get_def, ← hP₂, reduceAgainst_coeff_row_of_ne (by decide), ← hQ₁,
      reduceAgainst_coeff_row_of_ne (by decide), hgs]
  have hP₂n : P₂.gs.normSq = P₁.gs.normSq := by
    rw [← hP₂, reduceAgainst_normSq, ← hQ₁, reduceAgainst_normSq, hgs]
  -- in exact arithmetic the new basis comes from the head by the multiples taken
  have hrow : Mat3.RowOps p.basis P₂.basis (multiple (p.gs.coeff.get 1 0))
      (multiple (acc.1.gs.coeff.get 2 1)) (multiple (Q₁.1.gs.coeff.get 2 0)) :=
    ⟨hP₂₀, fun j => by rw [hP₂₁, hbasis]; exact he₁ j, fun j => by rw [hP₂₁]; exact he₂ j⟩
  have hacc₂₁ : acc.1.gs.coeff.get 2 1 = p.gs.coeff.get 2 1 := by rw [hgs, hu₂₁]
  have hacc₂₀ : acc.1.gs.coeff.get 2 0 = p.gs.coeff.get 2 0 := by rw [hgs, hu₂₀]
  have hacc₁₀ : acc.1.gs.coeff.get 1 0 = P₁.gs.coeff.get 1 0 := by rw [hgs]
  rw [hacc₂₁, hacc₂₀, hacc₁₀] at hw₀
  rw [hacc₂₁] at hw₁ hm₂₁
  rw [hacc₂₁] at hrow
  -- the kept coefficients against the exact ones of the new basis
  have hn₁₀ : |P₂.basis.exactCoeff 1 0 - Binary64.real (P₂.gs.coeff.get 1 0)| ≤ 1 / 2 ^ 37 := by
    rw [hP₂c]
    obtain ⟨h₁, h₁'⟩ := abs_le.mp (hrow.abs_exactCoeff_one_zero_sub_le hA)
    obtain ⟨h₂, h₂'⟩ := abs_le.mp (hG.coeff_near 1 0 (by decide))
    obtain ⟨h₃, h₃'⟩ := abs_le.mp hv
    rw [abs_le]
    have : (1 : ℝ) / 2 ^ 47 + 1 / 2 ^ 38 + 1 / 2 ^ 53 ≤ 1 / 2 ^ 37 := by norm_num
    constructor <;> linarith
  have hn₂₁ : |P₂.basis.exactCoeff 2 1 - Binary64.real (P₂.gs.coeff.get 2 1)| ≤ 1 / 2 ^ 37 := by
    obtain ⟨h₁, h₁'⟩ := abs_le.mp (hrow.abs_exactCoeff_two_one_sub_le hA)
    obtain ⟨h₂, h₂'⟩ := abs_le.mp (hG.coeff_near 2 1 (by decide))
    obtain ⟨h₃, h₃'⟩ := abs_le.mp hw₁
    rw [abs_le]
    have : (1 : ℝ) / 2 ^ 42 + 1 / 2 ^ 38 + 1 / 2 ^ 53 ≤ 1 / 2 ^ 37 := by norm_num
    constructor <;> linarith
  have hn₂₀ : |P₂.basis.exactCoeff 2 0 - Binary64.real (P₂.gs.coeff.get 2 0)| ≤ 1 / 2 ^ 34 := by
    -- the multiple of the second vector carries the error of the first coefficient over
    have hcarry : |multiple (p.gs.coeff.get 2 1) *
        (P₂.basis.exactCoeff 1 0 - Binary64.real (P₁.gs.coeff.get 1 0))| ≤ 4 * (1 / 2 ^ 37) := by
      rw [abs_mul]
      exact mul_le_mul hm₂₁ (hP₂c ▸ hn₁₀) (abs_nonneg _) (by norm_num)
    obtain ⟨h₀, h₀'⟩ := abs_le.mp hcarry
    obtain ⟨h₁, h₁'⟩ := abs_le.mp (hrow.abs_exactCoeff_two_zero_sub_le hA)
    obtain ⟨h₂, h₂'⟩ := abs_le.mp (hG.coeff_near 2 0 (by decide))
    obtain ⟨h₃, h₃'⟩ := abs_le.mp hw₀
    rw [abs_le]
    constructor <;> nlinarith [show (4 : ℝ) * (1 / 2 ^ 37) + 1 / 2 ^ 44 + 1 / 2 ^ 38 + 1 / 2 ^ 48 ≤
      1 / 2 ^ 34 by norm_num]
  refine ⟨fun i => ?_, hrow.norm_exactOrtho_sub_le hA, fun i j hji => ?_, fun i j hji => ?_,
    fun i j hji => ?_, fun i j hji => ?_, hP₂n.trans hP₁n, fun i j hji => ?_⟩
  · fin_cases i
    · exact hP₂₀ ▸ hA.finite 0
    · exact hP₂₁ ▸ hb₁
    · exact hb₂
  · fin_cases i <;> fin_cases j <;> simp at hji
    · change (P₂.gs.coeff.get 1 0).isFinite = true
      rw [hP₂c, ← hacc₁₀]
      exact hvf
    · exact hwf₀
    · exact hwf₁
  · fin_cases i <;> fin_cases j <;> simp at hji
    · change |Binary64.real (P₂.gs.coeff.get 1 0)| ≤ 1 / 2
      rw [hP₂c, ← hacc₁₀]
      exact hvh
    · exact hwh₀
    · exact hwh₁
  · fin_cases i <;> fin_cases j <;> simp at hji
    · exact hn₁₀.trans (by norm_num)
    · exact hn₂₀
    · exact hn₂₁.trans (by norm_num)
  · fin_cases i <;> fin_cases j <;> simp at hji
    · exact hn₁₀
    · exact hn₂₁
  · fin_cases i <;> fin_cases j <;> simp at hji
    · change P₂.lovaszHolds o.delta 1 0 = true
      unfold lovaszHolds at hl₂ ⊢
      rw [hP₂c, hP₂n]
      exact hl₂
    · exact hl₃

end Exit

end Binary64

end Progress

end CrystalLattice.Reduction
