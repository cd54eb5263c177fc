import Mathlib
import CrystalLattice.Proofs.FixedPoints
import CrystalLattice.Proofs.GramSchmidt
import CrystalLattice.Proofs.Binary64Monotone

/-!
# Loosening the tolerances of the check

In binary64 a smaller `δ` and a larger slack keep a basis accepted while the slack is at most one
(`check_of_looser_tolerances`); beyond one the factor `1 - s` turns negative bounds positive and
a larger slack can reject (`check_rejects_larger_slack`).
-/

namespace CrystalLattice.Binary64

open Float.Model.UnpackedFloat Reduction GramSchmidt

section Slack

variable {s s' : Float}

theorem zero_le_of_slackValid (h : slackValid s = true) : (0 : Float) ≤ s ∧ s.isFinite = true := by
  simp only [slackValid, Bool.not_eq_true', Bool.or_eq_false_iff, Bool.not_eq_false',
    scalar_lt_float, decide_eq_false_iff_not] at h
  obtain ⟨⟨-, hfin⟩, hlt⟩ := h
  exact ⟨le_of_not_lt (unpack_ne_notANumber_of_isFinite hfin) (by rw [unpack_zero]; simp) hlt,
    hfin⟩

theorem slackValid_of_le (hs : slackValid s = true) (hss : s ≤ s') (hs1 : s' ≤ 1) :
    slackValid s' = true := by
  obtain ⟨h0, -⟩ := zero_le_of_slackValid hs
  have h0' := float_le_trans h0 hss
  have hfin := isFinite_of_le h0' hs1 (by decide)
  simp only [slackValid, Bool.not_eq_true', Bool.or_eq_false_iff, Bool.not_eq_false',
    scalar_lt_float, decide_eq_false_iff_not]
  exact ⟨⟨isNaN_eq_false_of_isFinite hfin, hfin⟩, float_not_lt_of_le h0'⟩

end Slack

section Tests

variable {s s' : Float}

theorem not_lt_half_add_of_le {u : Float} (hs : slackValid s = true) (hss : s ≤ s')
    (hs1 : s' ≤ 1) (h : ¬(0.5 : Float) + s < u) : ¬(0.5 : Float) + s' < u := by
  obtain ⟨h0, hfin⟩ := zero_le_of_slackValid hs
  obtain ⟨-, hfin'⟩ := zero_le_of_slackValid (slackValid_of_le hs hss hs1)
  have hle : (0.5 : Float) + s ≤ 0.5 + s' :=
    add_le_add_left_of_nonneg (by decide) (value_nonneg_of_hasSign hasPositiveSign_half) hfin
      (value_nonneg_of_zero_le h0 hfin) hfin' hss
  exact fun h' => h (float_lt_of_le_of_lt hle h')

/-- A smaller `δ` and a larger slack keep a pair within the Lovász bound
`(δ - μ²) ‖b*ⱼ‖² (1 - s)`. -/
theorem not_lt_lovaszBound_of_le {M Mi μ δ δ' : Float} (hMi : HasPositiveSign Mi)
    (hM : HasPositiveSign M) (hδ : δ.isFinite = true) (hδ' : δ'.isFinite = true) (hδδ' : δ' ≤ δ)
    (hs : slackValid s = true) (hss : s ≤ s') (hs1 : s' ≤ 1)
    (h : ¬Mi < (δ - μ * μ) * M * (1 - s)) : ¬Mi < (δ' - μ * μ) * M * (1 - s') := by
  intro hlt
  apply h
  obtain ⟨h0, hfin⟩ := zero_le_of_slackValid hs
  obtain ⟨h0', hfin'⟩ := zero_le_of_slackValid (slackValid_of_le hs hss hs1)
  have ht' : RoundsFrom (1 - s') (value 1 - value s') :=
    RoundsFrom.sub (by decide) hfin' (value_nonneg_of_zero_le h0' hfin')
      (value_le_of_le hfin' (by decide) hs1)
  obtain ⟨hP', htpos⟩ := (isPositive_of_lt hMi hlt).of_float_mul ht'.sortKey_bounds.1
  obtain ⟨ha', hMpos⟩ := hP'.of_float_mul (sortKey_ge_of_hasSign hM)
  have ha : δ' - μ * μ ≤ δ - μ * μ :=
    sub_le_sub_right_of_isPositive hδ' hδ (hasPositiveSign_mul_self μ) hδδ' ha'
  have ht : 1 - s' ≤ 1 - s :=
    sub_le_sub_left_of_nonneg (by decide) hfin (value_nonneg_of_zero_le h0 hfin) hfin' hss hs1
  have hP : (δ' - μ * μ) * M ≤ (δ - μ * μ) * M :=
    mul_le_mul_of_isPositive ha' hMpos ha (float_le_refl (isPositive_iff_sortKey.mp hMpos).2)
  exact float_lt_of_lt_of_le hlt (mul_le_mul_of_isPositive hP' htpos hP ht)

end Tests

/-- Loosening the tolerances keeps a basis accepted: a basis that the check accepts at `δ` and
slack `s` it accepts at every valid `δ' ≤ δ` and every slack `s'` with `s ≤ s' ≤ 1`. -/
theorem check_of_looser_tolerances {L : Mat3 Float} {δ δ' s s' : Float}
    (hδ' : deltaValid δ' = true) (hδδ' : δ' ≤ δ) (hss : s ≤ s') (hs1 : s' ≤ 1)
    (h : check L δ s = .ok ()) : check L δ' s' = .ok () := by
  rw [check, checkReduced_eq_ok_iff] at h ⊢
  obtain ⟨hδ, hs, hfin, g, hg, hsize, hlov⟩ := h
  refine ⟨hδ', slackValid_of_le hs hss hs1, hfin, g, hg, ?_, ?_⟩
  · rw [oversizedCoeff?_eq_none_iff] at hsize ⊢
    intro i j hji
    have hij := hsize i j hji
    simp only [scalar_lt_float, decide_eq_false_iff_not] at hij ⊢
    exact not_lt_half_add_of_le hs hss hs1 hij
  · rw [lovaszFailure?_eq_none_iff] at hlov ⊢
    intro i lower hi
    have hpair := hlov i lower hi
    simp only [scalar_lt_float, decide_eq_false_iff_not] at hpair ⊢
    exact not_lt_lovaszBound_of_le (compute_normSq_hasPositiveSign hg i).1
      (compute_normSq_hasPositiveSign hg lower).1 (isFinite_of_deltaValid hδ)
      (isFinite_of_deltaValid hδ') hδδ' hs hss hs1 hpair

set_option maxRecDepth 8000 in
theorem tiltedBasis_check_of_looser_tolerances :
    deltaValid (0.5 : Float) = true ∧ (0.5 : Float) ≤ 0.75 ∧ (0.5 : Float) ≤ 1 ∧
      (1 : Float) ≤ 1 ∧ check (⟨⟨1, 0, 0⟩, ⟨1, 0.5, 0⟩, ⟨0, 0, 1⟩⟩ : Mat3 Float) 0.75 0.5 = .ok () ∧
      check (⟨⟨1, 0, 0⟩, ⟨1, 0.5, 0⟩, ⟨0, 0, 1⟩⟩ : Mat3 Float) 0.5 1 = .ok () := by
  have hcheck : check (⟨⟨1, 0, 0⟩, ⟨1, 0.5, 0⟩, ⟨0, 0, 1⟩⟩ : Mat3 Float) 0.75 0.5 = .ok () := by
    rw [check, checkReduced, compute_eq_refresh]
    decide
  exact ⟨by decide, by decide, by decide, by decide, hcheck,
    check_of_looser_tolerances (by decide) (by decide) (by decide) (by decide) hcheck⟩

set_option maxRecDepth 8000 in
/-- Beyond a slack of one the check is not monotone: with `μ = 1` the factors `δ - μ²` and
`1 - s` are both negative at slack `3`, and their product bound rises above `‖b*₁‖²`. -/
theorem check_rejects_larger_slack :
    check (⟨⟨1, 0, 0⟩, ⟨1, 0.5, 0⟩, ⟨0, 0, 1⟩⟩ : Mat3 Float) 0.75 1 = .ok () ∧
      (check (⟨⟨1, 0, 0⟩, ⟨1, 0.5, 0⟩, ⟨0, 0, 1⟩⟩ : Mat3 Float) 0.75 3).mapError Failure.kind =
        .error .lovaszViolated := by
  rw [check, check, checkReduced, checkReduced, compute_eq_refresh]
  decide

end CrystalLattice.Binary64
