import Mathlib
import CrystalLattice.Proofs.LastPass

/-!
# The margins of the closing check

A reduction ends by recomputing the orthogonalisation of the basis its loop left, in binary64,
and testing it against `1/2 + s` and against `1 - s` times the Lovász bound, with the slack
`s = 10⁻⁹`. When the head of the loop's last pass is well conditioned, the recomputed
coefficients lie within `2⁻³³` of those the loop reduced to at most one half, and the recomputed
Lovász test misses the loop's own by a relative `2⁻³¹` at most: both stay inside the slack, and
the check finds neither a coefficient nor a pair to report (`Progress.ExitNear.check_passes`).
-/

namespace CrystalLattice.Mat3

open CrystalLattice.Euclidean

variable {m : Mat3 Float}

theorem norm_row_one_le (m : Mat3 Float) :
    ‖(m.row 1).real‖ ≤ ‖m.exactOrtho 1‖ + |m.exactCoeff 1 0| * ‖m.exactOrtho 0‖ := by
  have e : (m.row 1).real = m.exactOrtho 1 + m.exactCoeff 1 0 • m.exactOrtho 0 := by
    change _ = ortho₁ (m.row 0).real (m.row 1).real +
      coeff (m.row 1).real (m.row 0).real • (m.row 0).real
    rw [ortho₁, proj, sub_add_cancel]
  rw [e, ← Real.norm_eq_abs, ← norm_smul]
  exact norm_add_le _ _

theorem norm_row_two_le (m : Mat3 Float) :
    ‖(m.row 2).real‖ ≤ ‖m.exactOrtho 2‖ + |m.exactCoeff 2 1| * ‖m.exactOrtho 1‖ +
      |m.exactCoeff 2 0| * ‖m.exactOrtho 0‖ := by
  have e : (m.row 2).real = m.exactOrtho 2 + m.exactCoeff 2 1 • m.exactOrtho 1 +
      m.exactCoeff 2 0 • m.exactOrtho 0 := by
    change _ = ortho₂ (m.row 0).real (m.row 1).real (m.row 2).real +
      coeff (m.row 2).real (ortho₁ (m.row 0).real (m.row 1).real) •
        ortho₁ (m.row 0).real (m.row 1).real + coeff (m.row 2).real (m.row 0).real • (m.row 0).real
    rw [ortho₂]
    abel
  rw [e, ← Real.norm_eq_abs, ← Real.norm_eq_abs, ← norm_smul, ← norm_smul]
  exact (norm_add_le _ _).trans (add_le_add (norm_add_le _ _) le_rfl)

/-- With coefficients at most `0.51` in size, every row is at most `2.1` times as long as the
longest exact orthogonal vector. -/
theorem norm_row_le_of_coeff_le {W : ℝ} (hW : ∀ k, ‖m.exactOrtho k‖ ≤ W)
    (hμ : ∀ i k : Fin 3, k < i → |m.exactCoeff i k| ≤ 51 / 100) (i : Fin 3) :
    ‖(m.row i).real‖ ≤ 21 / 10 * W := by
  have hW₀ : 0 ≤ W := (norm_nonneg _).trans (hW 0)
  have hmul : ∀ i k : Fin 3, k < i → |m.exactCoeff i k| * ‖m.exactOrtho k‖ ≤ 51 / 100 * W :=
    fun i k hki => mul_le_mul (hμ i k hki) (hW k) (norm_nonneg _) (by norm_num)
  fin_cases i
  · change ‖m.exactOrtho 0‖ ≤ _
    linarith [hW 0]
  · change ‖(m.row 1).real‖ ≤ _
    have := m.norm_row_one_le
    linarith [hW 1, hmul 1 0 (by decide)]
  · change ‖(m.row 2).real‖ ≤ _
    have := m.norm_row_two_le
    linarith [hW 2, hmul 2 1 (by decide), hmul 2 0 (by decide)]

end CrystalLattice.Mat3

namespace CrystalLattice.Reduction

open Binary64 CrystalLattice.Euclidean GramSchmidt

section Constants

open Float.Model.UnpackedFloat

theorem unpack_half_add_checkSlack : ((0.5 : Float) + checkSlack).toModel.unpack =
    .finite .positive 4503599636377695 (-53) (by norm_num) := by
  decide

theorem unpack_quarter : (0.25 : Float).toModel.unpack = .finite .positive (2 ^ 52) (-54)
    (by norm_num) := by
  decide

/-- The coefficient threshold of the check lies `2⁻³¹` above one half. -/
theorem real_half_add_checkSlack : ((0.5 : Float) + checkSlack).isFinite = true ∧
    1 / 2 + 1 / 2 ^ 31 ≤ Binary64.real ((0.5 : Float) + checkSlack) := by
  refine ⟨isFinite_of_unpack_finite unpack_half_add_checkSlack, ?_⟩
  rw [Binary64.real, value_of_unpack unpack_half_add_checkSlack]
  norm_num [Sign.apply]

/-- The factor of the check's Lovász bound lies `2⁻³⁰` below one. -/
theorem real_one_sub_checkSlack : ((Scalar.one : Float) - checkSlack).isFinite = true ∧
    1 / 2 ≤ Binary64.real ((Scalar.one : Float) - checkSlack) ∧
      Binary64.real ((Scalar.one : Float) - checkSlack) ≤ 1 - 1 / 2 ^ 30 := by
  refine ⟨isFinite_of_unpack_finite unpack_one_sub_checkSlack, ?_⟩
  rw [Binary64.real, value_of_unpack unpack_one_sub_checkSlack]
  norm_num [Sign.apply]

theorem real_quarter : (0.25 : Float).isFinite = true ∧ Binary64.real 0.25 = 1 / 4 := by
  refine ⟨isFinite_of_unpack_finite unpack_quarter, ?_⟩
  rw [Binary64.real, value_of_unpack unpack_quarter]
  norm_num [Sign.apply]

/-- A valid `δ` is a finite float in `[1/4, 1]`. -/
theorem real_mem_of_deltaValid {δ : Float} (h : deltaValid δ = true) :
    δ.isFinite = true ∧ 1 / 4 ≤ Binary64.real δ ∧ Binary64.real δ ≤ 1 := by
  have hf := isFinite_of_deltaValid h
  simp only [deltaValid, Bool.not_eq_true', Bool.or_eq_false_iff, scalar_le_float,
    decide_eq_false_iff_not] at h
  obtain ⟨⟨-, hlow⟩, hhigh⟩ := h
  obtain ⟨hq, hqv⟩ := real_quarter
  have hone : (1 : Float).isFinite = true ∧ Binary64.real 1 = 1 := by
    refine ⟨isFinite_of_unpack_finite Binary64.unpack_one, ?_⟩
    rw [Binary64.real, value_one, Rat.cast_one]
  refine ⟨hf, ?_, ?_⟩
  · -- below a quarter the float test `δ ≤ 0.25` would hold
    by_contra hlt
    rw [not_le, ← hqv] at hlt
    exact hlow (le_of_not_lt (unpack_ne_notANumber_of_isFinite hq)
      (unpack_ne_notANumber_of_isFinite hf) (not_lt_of_real_lt hq hf hlt))
  · by_contra hgt
    rw [not_le, ← hone.2] at hgt
    exact hhigh (le_of_not_lt (unpack_ne_notANumber_of_isFinite hf)
      (unpack_ne_notANumber_of_isFinite hone.1) (not_lt_of_real_lt hf hone.1 hgt))

end Constants

section Rounding

variable {δ c N : Float}

/-- The binary64 Lovász term `(δ - c·c)·N` is finite and within nine roundings of `N` of the
exact one. -/
theorem lovaszTerm_near (hδ : δ.isFinite = true) (hδ₁ : |Binary64.real δ| ≤ 1)
    (hc : c.isFinite = true) (hc₁ : |Binary64.real c| ≤ 1) (hN : N.isFinite = true)
    (hN₀ : 1 / 2 ^ 200 ≤ Binary64.real N) (hN₁ : Binary64.real N ≤ 2 ^ 200) :
    ((δ - c * c) * N).isFinite = true ∧
      |Binary64.real ((δ - c * c) * N) - (Binary64.real δ - Binary64.real c ^ 2) *
        Binary64.real N| ≤ 9 * Binary64.real N / 2 ^ 53 := by
  have hη := underflow_le_tiny
  have hη₀ := underflow_nonneg
  have hηN := underflow_le_of_le hN₀
  have hN₀' : 0 ≤ Binary64.real N := le_trans (by positivity) hN₀
  have hbig : (4 : ℝ) ≤ 2 ^ 1023 :=
    calc (4 : ℝ) = 2 ^ 2 := by norm_num
      _ ≤ 2 ^ 1023 := pow_le_pow_right₀ (by norm_num) (by norm_num)
  -- the square
  have hcc : |Binary64.real c * Binary64.real c| ≤ 1 := by
    rw [abs_mul]
    nlinarith [abs_nonneg (Binary64.real c)]
  have h₁ := rounds_mul hc hc (hcc.trans (le_trans (by norm_num) hbig))
  have e₁ := h₁.abs_sub_le
  have hcc' : |Binary64.real c * Binary64.real c| / 2 ^ 53 ≤ 1 / 2 ^ 53 := by gcongr
  have ht₁ : |Binary64.real (c * c)| ≤ 1 + 1 / 2 ^ 52 := by
    have := abs_sub_abs_le_abs_sub (Binary64.real (c * c)) (Binary64.real c * Binary64.real c)
    linarith [show (1 : ℝ) / 2 ^ 53 + 1 / 2 ^ 54 ≤ 1 / 2 ^ 52 by norm_num]
  -- the difference
  have hd : |Binary64.real δ - Binary64.real (c * c)| ≤ 2 + 1 / 2 ^ 52 := by
    have := abs_sub (Binary64.real δ) (Binary64.real (c * c))
    linarith
  have h₂ := rounds_sub hδ h₁.isFinite (hd.trans (le_trans (by norm_num) hbig))
  have e₂ := h₂.abs_sub_le
  have hd' : |Binary64.real δ - Binary64.real (c * c)| / 2 ^ 53 ≤ 3 / 2 ^ 53 := by
    gcongr
    linarith [show (1 : ℝ) / 2 ^ 52 ≤ 1 by norm_num]
  have hd₂ : |Binary64.real (δ - c * c) - (Binary64.real δ - Binary64.real c ^ 2)| ≤
      4 / 2 ^ 53 + 2 * underflow := by
    have hsplit : Binary64.real (δ - c * c) - (Binary64.real δ - Binary64.real c ^ 2) =
        (Binary64.real (δ - c * c) - (Binary64.real δ - Binary64.real (c * c))) -
          (Binary64.real (c * c) - Binary64.real c * Binary64.real c) := by ring
    rw [hsplit]
    have := abs_sub (Binary64.real (δ - c * c) - (Binary64.real δ - Binary64.real (c * c)))
      (Binary64.real (c * c) - Binary64.real c * Binary64.real c)
    linarith
  have ht₂ : |Binary64.real (δ - c * c)| ≤ 3 := by
    have := abs_sub_abs_le_abs_sub (Binary64.real (δ - c * c))
      (Binary64.real δ - Binary64.real (c * c))
    linarith [show (2 : ℝ) + 1 / 2 ^ 52 + 3 / 2 ^ 53 + 1 / 2 ^ 54 ≤ 3 by norm_num]
  -- the product
  have hp : |Binary64.real (δ - c * c) * Binary64.real N| ≤ 2 ^ 1023 := by
    rw [abs_mul, abs_of_nonneg hN₀']
    calc |Binary64.real (δ - c * c)| * Binary64.real N ≤ 3 * 2 ^ 200 := by gcongr
      _ ≤ 2 ^ 1023 := by
        calc (3 : ℝ) * 2 ^ 200 ≤ 2 ^ 202 := by norm_num
          _ ≤ 2 ^ 1023 := pow_le_pow_right₀ (by norm_num) (by norm_num)
  have h₃ := rounds_mul h₂.isFinite hN hp
  have e₃ := h₃.abs_sub_le
  refine ⟨h₃.isFinite, ?_⟩
  rw [abs_mul, abs_of_nonneg hN₀'] at e₃
  have hsplit : Binary64.real ((δ - c * c) * N) - (Binary64.real δ - Binary64.real c ^ 2) *
      Binary64.real N = (Binary64.real ((δ - c * c) * N) - Binary64.real (δ - c * c) *
        Binary64.real N) + (Binary64.real (δ - c * c) - (Binary64.real δ - Binary64.real c ^ 2)) *
          Binary64.real N := by ring
  rw [hsplit]
  refine (abs_add_le _ _).trans ?_
  rw [abs_mul, abs_of_nonneg hN₀']
  have h₃' : |Binary64.real (δ - c * c)| * Binary64.real N / 2 ^ 53 ≤
      3 * Binary64.real N / 2 ^ 53 := by
    gcongr
  have h₂' := mul_le_mul_of_nonneg_right hd₂ hN₀'
  have hηN' : underflow * Binary64.real N ≤ 1 / 2 ^ 54 * Binary64.real N :=
    mul_le_mul_of_nonneg_right hη hN₀'
  have : Binary64.real N / 2 ^ 53 / 2 ^ 100 ≤ Binary64.real N / 2 ^ 53 :=
    div_le_self (by positivity) (by norm_num)
  have e : 9 * Binary64.real N / 2 ^ 53 = 3 * Binary64.real N / 2 ^ 53 +
      4 / 2 ^ 53 * Binary64.real N + 2 * (1 / 2 ^ 54 * Binary64.real N) +
        Binary64.real N / 2 ^ 53 := by ring
  rw [e]
  linarith

end Rounding

section Transfer

/-- The Lovász test of the check passes where the loop's passed: the loop compared `(δ - v²) m₀`
with `m₁`, the check compares `(δ - c²) n₀ F` with `n₁`, with `c` near `v`, every `mⱼ` and `nⱼ`
near an exact `Nⱼ`, `N₀ ≤ 4 N₁`, and `F` at least `2⁻³⁰` below one. A bound under a fifth of
`n₀` lies far below `n₁`; a larger one is relatively close to the loop's, which the factor `F`
outweighs. -/
theorem lovasz_transfer {δ v c m₀ m₁ n₀ n₁ N₀ N₁ F R : ℝ} (hv : |v| ≤ 1 / 2)
    (hcv : |c - v| ≤ 1 / 2 ^ 36) (hN₀ : 0 ≤ N₀) (hN₁ : 0 < N₁) (hN : N₀ ≤ 4 * N₁)
    (hm₀ : |m₀ - N₀| ≤ N₀ / 2 ^ 34) (hm₁ : |m₁ - N₁| ≤ N₁ / 2 ^ 34)
    (hn₀ : |n₀ - N₀| ≤ N₀ / 2 ^ 33) (hn₁ : |n₁ - N₁| ≤ N₁ / 2 ^ 33)
    (hF₀ : 0 ≤ F) (hF : F ≤ 1 - 1 / 2 ^ 30)
    (hL : (δ - v ^ 2) * m₀ - 9 * m₀ / 2 ^ 53 ≤ m₁)
    (hR : R ≤ (δ - c ^ 2) * n₀ * F + 16 * n₀ / 2 ^ 53) : R < n₁ := by
  obtain ⟨hm₀l, hm₀u⟩ := abs_le.mp hm₀
  obtain ⟨hm₁l, hm₁u⟩ := abs_le.mp hm₁
  obtain ⟨hn₀l, hn₀u⟩ := abs_le.mp hn₀
  obtain ⟨hn₁l, hn₁u⟩ := abs_le.mp hn₁
  have hn₀p : 0 ≤ n₀ := by linarith
  by_cases hX : δ - c ^ 2 ≤ 1 / 5
  · -- a small bound is far below the next squared length
    have h₁ : (δ - c ^ 2) * n₀ * F ≤ 1 / 5 * n₀ * F :=
      mul_le_mul_of_nonneg_right (mul_le_mul_of_nonneg_right hX hn₀p) hF₀
    have h₂ : 1 / 5 * n₀ * F ≤ 1 / 5 * n₀ :=
      mul_le_of_le_one_right (by positivity) (by linarith)
    linarith
  · rw [not_le] at hX
    -- the squares of the two coefficients differ by at most `2⁻³⁵`
    have hsq : |c ^ 2 - v ^ 2| ≤ 1 / 2 ^ 35 := by
      have e : c ^ 2 - v ^ 2 = (c - v) * (c - v + 2 * v) := by ring
      have hsum : |c - v + 2 * v| ≤ 1 / 2 ^ 36 + 1 := by
        have := abs_add_le (c - v) (2 * v)
        rw [abs_mul, abs_two] at this
        linarith
      rw [e, abs_mul]
      calc |c - v| * |c - v + 2 * v| ≤ 1 / 2 ^ 36 * (1 / 2 ^ 36 + 1) :=
            mul_le_mul hcv hsum (abs_nonneg _) (by positivity)
        _ ≤ 1 / 2 ^ 35 := by norm_num
    obtain ⟨hsql, hsqu⟩ := abs_le.mp hsq
    have hrel : δ - c ^ 2 ≤ (δ - v ^ 2) * (1 + 1 / 2 ^ 32) := by linarith
    -- the check's bound, step by step down to the loop's
    have s₁ : (δ - c ^ 2) * n₀ * F ≤ (δ - c ^ 2) * n₀ * (1 - 1 / 2 ^ 30) :=
      mul_le_mul_of_nonneg_left hF (mul_nonneg (by linarith) hn₀p)
    have s₂ : (δ - c ^ 2) * n₀ ≤ (δ - c ^ 2) * (N₀ * (1 + 1 / 2 ^ 33)) :=
      mul_le_mul_of_nonneg_left (by linarith) (by linarith)
    have s₃ : (δ - c ^ 2) * N₀ ≤ (δ - v ^ 2) * (1 + 1 / 2 ^ 32) * N₀ :=
      mul_le_mul_of_nonneg_right hrel hN₀
    have s₄ : (δ - v ^ 2) * (N₀ * (1 - 1 / 2 ^ 34)) ≤ (δ - v ^ 2) * m₀ :=
      mul_le_mul_of_nonneg_left (by linarith) (by linarith)
    linarith

end Transfer

section Pair

variable {δ v c m₀ m₁ n₀ n₁ : Float} {N₀ N₁ : ℝ}

/-- A float within a relative `2⁻³³` of an exact value in `[2⁻¹⁰⁰, 2¹⁰⁰]` lies in the range
where `lovaszTerm_near` applies. -/
theorem real_mem_of_near {x : Float} {N : ℝ} (hN₀ : 1 / 2 ^ 100 ≤ N) (hN₁ : N ≤ 2 ^ 100)
    (hx : |Binary64.real x - N| ≤ N / 2 ^ 33) :
    1 / 2 ^ 200 ≤ Binary64.real x ∧ Binary64.real x ≤ 2 ^ 200 := by
  obtain ⟨hl, hu⟩ := abs_le.mp hx
  constructor <;> linarith [show (1 : ℝ) / 2 ^ 200 ≤ (1 - 1 / 2 ^ 33) * (1 / 2 ^ 100) by norm_num,
    show (1 + 1 / 2 ^ 33) * (2 : ℝ) ^ 100 ≤ 2 ^ 200 by norm_num]

/-- The check's Lovász bound `(δ - c·c)·n₀·(1 - s)` is finite and at most the exact one plus
sixteen roundings of `n₀`. -/
theorem checkBound_le (hδ : deltaValid δ = true) (hc : c.isFinite = true)
    (hc₁ : |Binary64.real c| ≤ 1) (hn₀ : n₀.isFinite = true)
    (hn₀l : 1 / 2 ^ 200 ≤ Binary64.real n₀) (hn₀u : Binary64.real n₀ ≤ 2 ^ 200) :
    ((δ - c * c) * n₀ * (Scalar.one - checkSlack)).isFinite = true ∧
      Binary64.real ((δ - c * c) * n₀ * (Scalar.one - checkSlack)) ≤
        (Binary64.real δ - Binary64.real c ^ 2) * Binary64.real n₀ *
          Binary64.real ((Scalar.one : Float) - checkSlack) + 16 * Binary64.real n₀ / 2 ^ 53 := by
  obtain ⟨hδf, hδl, hδu⟩ := real_mem_of_deltaValid hδ
  have hδ₁ : |Binary64.real δ| ≤ 1 := abs_le.mpr ⟨by linarith, hδu⟩
  obtain ⟨hTf, hT⟩ := lovaszTerm_near hδf hδ₁ hc hc₁ hn₀ hn₀l hn₀u
  obtain ⟨hFf, hF₀, hF⟩ := real_one_sub_checkSlack
  have hn₀p : 0 ≤ Binary64.real n₀ := le_trans (by positivity) hn₀l
  -- the term is at most three times `n₀`, and so is its product with `1 - s`
  have hT₁ : |Binary64.real ((δ - c * c) * n₀)| ≤ 3 * Binary64.real n₀ := by
    have := abs_sub_abs_le_abs_sub (Binary64.real ((δ - c * c) * n₀))
      ((Binary64.real δ - Binary64.real c ^ 2) * Binary64.real n₀)
    have hX : |(Binary64.real δ - Binary64.real c ^ 2) * Binary64.real n₀| ≤
        2 * Binary64.real n₀ := by
      rw [abs_mul, abs_of_nonneg hn₀p]
      have : |Binary64.real δ - Binary64.real c ^ 2| ≤ 2 := by
        have := abs_sub (Binary64.real δ) (Binary64.real c ^ 2)
        rw [abs_pow] at this
        nlinarith [abs_nonneg (Binary64.real c)]
      nlinarith
    have : 9 * Binary64.real n₀ / 2 ^ 53 ≤ Binary64.real n₀ := by
      rw [div_le_iff₀ (by positivity)]
      nlinarith
    linarith
  have hTF : |Binary64.real ((δ - c * c) * n₀) *
      Binary64.real ((Scalar.one : Float) - checkSlack)| ≤ 3 * Binary64.real n₀ := by
    rw [abs_mul]
    have hF₁ : |Binary64.real ((Scalar.one : Float) - checkSlack)| ≤ 1 :=
      abs_le.mpr ⟨by linarith, by linarith⟩
    nlinarith [abs_nonneg (Binary64.real ((δ - c * c) * n₀))]
  have hbig : 3 * Binary64.real n₀ ≤ 2 ^ 1023 :=
    calc 3 * Binary64.real n₀ ≤ 3 * 2 ^ 200 := by gcongr
      _ ≤ 2 ^ 202 := by norm_num
      _ ≤ 2 ^ 1023 := pow_le_pow_right₀ (by norm_num) (by norm_num)
  have hR := rounds_mul hTf hFf (hTF.trans hbig)
  refine ⟨hR.isFinite, ?_⟩
  -- nine roundings of `n₀` from the term and three from the last product, within sixteen
  have hη := underflow_le_of_le hn₀l
  obtain ⟨-, hTu⟩ := abs_le.mp hT
  have h₁ : Binary64.real ((δ - c * c) * n₀) * Binary64.real ((Scalar.one : Float) - checkSlack) ≤
      ((Binary64.real δ - Binary64.real c ^ 2) * Binary64.real n₀ +
        9 * Binary64.real n₀ / 2 ^ 53) * Binary64.real ((Scalar.one : Float) - checkSlack) :=
    mul_le_mul_of_nonneg_right (by linarith) (by linarith)
  have h₂ : 9 * Binary64.real n₀ / 2 ^ 53 * Binary64.real ((Scalar.one : Float) - checkSlack) ≤
      9 * Binary64.real n₀ / 2 ^ 53 :=
    mul_le_of_le_one_right (by positivity) (by linarith)
  have h₃ : |Binary64.real ((δ - c * c) * n₀) *
      Binary64.real ((Scalar.one : Float) - checkSlack)| / 2 ^ 53 ≤
        3 * Binary64.real n₀ / 2 ^ 53 := by gcongr
  have h₄ : Binary64.real n₀ / 2 ^ 53 / 2 ^ 100 ≤ Binary64.real n₀ / 2 ^ 53 :=
    div_le_self (by positivity) (by norm_num)
  obtain ⟨-, hRu⟩ := abs_le.mp hR.abs_sub_le
  nlinarith

/-- One pair of the closing Lovász test: where the loop found `(δ - v·v)·m₀ ≤ m₁`, the check does
not find `n₁` below `(δ - c·c)·n₀·(1 - s)`. -/
theorem not_lt_lovaszBound_of_loop (hδ : deltaValid δ = true) (hv : v.isFinite = true)
    (hv₁ : |Binary64.real v| ≤ 1 / 2) (hc : c.isFinite = true)
    (hcv : |Binary64.real c - Binary64.real v| ≤ 1 / 2 ^ 36) (hm₀ : m₀.isFinite = true)
    (hm₁ : m₁.isFinite = true) (hn₀ : n₀.isFinite = true) (hn₁ : n₁.isFinite = true)
    (hN₀ : 1 / 2 ^ 100 ≤ N₀) (hN₀' : N₀ ≤ 2 ^ 100) (hN₁ : 0 < N₁) (hN : N₀ ≤ 4 * N₁)
    (hm₀' : |Binary64.real m₀ - N₀| ≤ N₀ / 2 ^ 34) (hm₁' : |Binary64.real m₁ - N₁| ≤ N₁ / 2 ^ 34)
    (hn₀' : |Binary64.real n₀ - N₀| ≤ N₀ / 2 ^ 33) (hn₁' : |Binary64.real n₁ - N₁| ≤ N₁ / 2 ^ 33)
    (hloop : (δ - v * v) * m₀ ≤ m₁) :
    ¬n₁ < (δ - c * c) * n₀ * (Scalar.one - checkSlack) := by
  obtain ⟨hδf, hδl, hδu⟩ := real_mem_of_deltaValid hδ
  have hδ₁ : |Binary64.real δ| ≤ 1 := abs_le.mpr ⟨by linarith, hδu⟩
  have hc₁ : |Binary64.real c| ≤ 1 := by
    have := abs_sub_abs_le_abs_sub (Binary64.real c) (Binary64.real v)
    linarith [show (1 : ℝ) / 2 ^ 36 ≤ 1 / 2 by norm_num]
  obtain ⟨hm₀l, hm₀u⟩ := real_mem_of_near hN₀ hN₀' (hm₀'.trans (by gcongr <;> norm_num))
  obtain ⟨hn₀l, hn₀u⟩ := real_mem_of_near hN₀ hN₀' hn₀'
  -- the loop's test, read in exact arithmetic
  obtain ⟨hLf, hL⟩ := lovaszTerm_near hδf hδ₁ hv (hv₁.trans (by norm_num)) hm₀ hm₀l hm₀u
  have hLm := real_le_of_le hLf hm₁ hloop
  obtain ⟨hLl, -⟩ := abs_le.mp hL
  -- the check's bound, against the loop's
  obtain ⟨hRf, hRup⟩ := checkBound_le hδ hc hc₁ hn₀ hn₀l hn₀u
  obtain ⟨-, hF₀, hF⟩ := real_one_sub_checkSlack
  exact not_lt_of_real_lt hn₁ hRf (lovasz_transfer hv₁ hcv (by linarith) hN₁ hN hm₀' hm₁'
    hn₀' hn₁' (by linarith) hF (by linarith) hRup)

end Pair

theorem abs_norm_sq_sub_le {x y : EuclideanSpace ℝ (Fin 3)} {ε : ℝ} (hε : 0 ≤ ε) (hε₁ : ε ≤ 1)
    (h : ‖x - y‖ ≤ ε * ‖y‖) : |‖x‖ ^ 2 - ‖y‖ ^ 2| ≤ 3 * ε * ‖y‖ ^ 2 := by
  have hd := (abs_norm_sub_norm_le x y).trans h
  have hs : ‖x‖ + ‖y‖ ≤ 3 * ‖y‖ := by
    have := norm_le_insert' x y
    nlinarith [norm_nonneg y]
  rw [show ‖x‖ ^ 2 - ‖y‖ ^ 2 = (‖x‖ - ‖y‖) * (‖x‖ + ‖y‖) by ring, abs_mul,
    abs_of_nonneg (by positivity : 0 ≤ ‖x‖ + ‖y‖)]
  calc |‖x‖ - ‖y‖| * (‖x‖ + ‖y‖) ≤ ε * ‖y‖ * (3 * ‖y‖) := by gcongr
    _ = 3 * ε * ‖y‖ ^ 2 := by ring

namespace Progress.ExitNear

variable {δ tol : Float} {p q : Progress Float} {g : GramSchmidt Float}

/-- The basis the loop leaves is balanced when the head of its last pass is well conditioned:
its rows are at most `2.1` times as long as the head's longest exact orthogonal vector, and its
own orthogonal vectors barely moved. -/
theorem balanced (hA : p.basis.WellConditioned) (hx : ExitNear δ p q) : q.basis.Balanced := by
  have hnear : ∀ k, ‖q.basis.exactOrtho k‖ ≤ (1 + 1 / 2 ^ 40) * ‖p.basis.exactOrtho k‖ :=
    fun k => by
      have := norm_le_insert' (q.basis.exactOrtho k) (p.basis.exactOrtho k)
      linarith [hx.ortho_near k]
  have hfar : ∀ k, (1 - 1 / 2 ^ 40) * ‖p.basis.exactOrtho k‖ ≤ ‖q.basis.exactOrtho k‖ :=
    fun k => by
      have := norm_sub_norm_le (p.basis.exactOrtho k) (q.basis.exactOrtho k)
      rw [norm_sub_rev] at this
      linarith [hx.ortho_near k]
  have hμ : ∀ i k : Fin 3, k < i → |q.basis.exactCoeff i k| ≤ 51 / 100 := fun i k hki => by
    have := abs_sub_abs_le_abs_sub (q.basis.exactCoeff i k) (Binary64.real (q.gs.coeff.get i k))
    linarith [hx.coeff_near i k hki, hx.coeff_half i k hki,
      show (1 : ℝ) / 2 ^ 34 ≤ 1 / 100 by norm_num]
  have hrow : ∀ i j, ‖(q.basis.row i).real‖ ≤ 21 / 10 * ((1 + 1 / 2 ^ 40) *
      (2 * ‖p.basis.exactOrtho j‖)) := fun i j =>
    q.basis.norm_row_le_of_coeff_le (fun k => (hnear k).trans
      (mul_le_mul_of_nonneg_left (hA.ortho_le k j) (by positivity))) hμ i
  refine ⟨hx.finite, fun i j => ?_, fun j => ?_, fun i => ?_⟩
  · linarith [hrow i j, hfar j, norm_nonneg (p.basis.exactOrtho j)]
  · linarith [hfar j, hA.ortho_ge j]
  · have hy : ‖p.basis.exactOrtho i‖ ≤ 2 ^ 50 :=
      (hA.balanced.ortho_le_row i).trans (hA.row_le_top i)
    linarith [hrow i i]

/-- The squared lengths the check recomputes lie within `2⁻³³` of the head's exact ones. -/
theorem normSq_near (hx : ExitNear δ p q) (hg : NearExact q.basis g) (j : Fin 3) :
    |Binary64.real (g.normSq.get j) - ‖p.basis.exactOrtho j‖ ^ 2| ≤
      ‖p.basis.exactOrtho j‖ ^ 2 / 2 ^ 33 := by
  have h₁ := hg.normSq_near j
  have h₂ := abs_norm_sq_sub_le (by positivity) (by norm_num)
    ((hx.ortho_near j).trans_eq (by ring : ‖p.basis.exactOrtho j‖ / 2 ^ 40 =
      1 / 2 ^ 40 * ‖p.basis.exactOrtho j‖))
  obtain ⟨h₁l, h₁u⟩ := abs_le.mp h₁
  obtain ⟨h₂l, h₂u⟩ := abs_le.mp h₂
  have hy := sq_nonneg ‖p.basis.exactOrtho j‖
  rw [abs_le]
  constructor <;> linarith

/-- The coefficients the check recomputes lie within `2⁻³³` of those the loop kept, and within
`2⁻³⁶` on the pairs of the Lovász test. -/
theorem abs_coeff_sub_le (hx : ExitNear δ p q) (hg : NearExact q.basis g) {i j : Fin 3}
    (hji : j < i) :
    |Binary64.real (g.coeff.get i j) - Binary64.real (q.gs.coeff.get i j)| ≤ 1 / 2 ^ 33 := by
  have := abs_sub_le (Binary64.real (g.coeff.get i j)) (q.basis.exactCoeff i j)
    (Binary64.real (q.gs.coeff.get i j))
  linarith [hg.coeff_near i j hji, hx.coeff_near i j hji,
    show (1 : ℝ) / 2 ^ 38 + 1 / 2 ^ 34 ≤ 1 / 2 ^ 33 by norm_num]

theorem abs_coeff_sub_le_adjacent (hx : ExitNear δ p q) (hg : NearExact q.basis g) {i j : Fin 3}
    (hji : j.val + 1 = i.val) :
    |Binary64.real (g.coeff.get i j) - Binary64.real (q.gs.coeff.get i j)| ≤ 1 / 2 ^ 36 := by
  have := abs_sub_le (Binary64.real (g.coeff.get i j)) (q.basis.exactCoeff i j)
    (Binary64.real (q.gs.coeff.get i j))
  linarith [hg.coeff_near i j (Fin.lt_def.mpr (by omega)), hx.coeff_near_adjacent i j hji,
    show (1 : ℝ) / 2 ^ 38 + 1 / 2 ^ 37 ≤ 1 / 2 ^ 36 by norm_num]

theorem oversizedCoeff?_eq_none (hx : ExitNear δ p q) (hg : NearExact q.basis g) :
    oversizedCoeff? g checkSlack = none := by
  rw [oversizedCoeff?_eq_none_iff]
  intro i j hji
  obtain ⟨haf, hav⟩ := abs_value (hg.coeff_finite i j hji)
  obtain ⟨hsf, hs⟩ := real_half_add_checkSlack
  have hlt : Binary64.real (Float.abs (g.coeff.get i j)) <
      Binary64.real ((0.5 : Float) + checkSlack) := by
    rw [Binary64.real, hav, Rat.cast_abs]
    change |Binary64.real (g.coeff.get i j)| < _
    have := abs_sub_abs_le_abs_sub (Binary64.real (g.coeff.get i j))
      (Binary64.real (q.gs.coeff.get i j))
    linarith [hx.abs_coeff_sub_le hg hji, hx.coeff_half i j hji,
      show (1 : ℝ) / 2 ^ 33 < 1 / 2 ^ 31 by norm_num]
  simp only [scalar_lt_float, scalar_abs_float, decide_eq_false_iff_not]
  exact not_lt_of_real_lt hsf haf hlt

theorem lovaszFailure?_eq_none (hA : p.basis.WellConditioned) (hG : NearExact p.basis p.gs)
    (hx : ExitNear δ p q) (hg : NearExact q.basis g) (hδ : deltaValid δ = true) :
    lovaszFailure? g δ checkSlack = none := by
  rw [lovaszFailure?_eq_none_iff]
  intro i l hil
  have hli : l < i := Fin.lt_def.mpr (by omega)
  have hloop := hx.lovasz i l hil
  simp only [lovaszHolds, scalar_le_float, decide_eq_true_eq] at hloop
  rw [hx.normSq_eq] at hloop
  simp only [lovaszBound, scalar_lt_float, decide_eq_false_iff_not]
  -- the exact squared lengths of the head, and their range
  have hy₀ := hA.ortho_ge l
  have hy₁ : ‖p.basis.exactOrtho l‖ ≤ 2 ^ 50 :=
    (hA.balanced.ortho_le_row l).trans (hA.row_le_top l)
  have hN₀ : 1 / 2 ^ 100 ≤ ‖p.basis.exactOrtho l‖ ^ 2 :=
    calc (1 : ℝ) / 2 ^ 100 = (1 / 2 ^ 50) ^ 2 := by norm_num
      _ ≤ ‖p.basis.exactOrtho l‖ ^ 2 := by gcongr
  have hN₀' : ‖p.basis.exactOrtho l‖ ^ 2 ≤ 2 ^ 100 :=
    calc ‖p.basis.exactOrtho l‖ ^ 2 ≤ (2 ^ 50) ^ 2 := by gcongr
      _ = 2 ^ 100 := by norm_num
  have hN : ‖p.basis.exactOrtho l‖ ^ 2 ≤ 4 * ‖p.basis.exactOrtho i‖ ^ 2 := by
    have := hA.ortho_le l i
    nlinarith [norm_nonneg (p.basis.exactOrtho l)]
  have hnear : ∀ j, |Binary64.real (p.gs.normSq.get j) - ‖p.basis.exactOrtho j‖ ^ 2| ≤
      ‖p.basis.exactOrtho j‖ ^ 2 / 2 ^ 34 := hG.normSq_near
  exact not_lt_lovaszBound_of_loop hδ (hx.coeff_finite i l hli) (hx.coeff_half i l hli)
    (hg.coeff_finite i l hli) (hx.abs_coeff_sub_le_adjacent hg hil) (hG.normSq_finite l)
    (hG.normSq_finite i) (hg.normSq_finite l) (hg.normSq_finite i) hN₀ hN₀'
    (pow_pos (hA.balanced.ortho_pos i) 2) hN (hnear l) (hnear i) (hx.normSq_near hg l)
    (hx.normSq_near hg i) hloop

/-- The check a reduction closes with passes on what the loop leaves, when the head of its last
pass is well conditioned: whatever tolerance it orthogonalises with, it finds neither a
coefficient above `1/2 + s` nor a pair below `1 - s` times its Lovász bound. -/
theorem check_passes (hA : p.basis.WellConditioned) (hG : NearExact p.basis p.gs)
    (hx : ExitNear δ p q) (hδ : deltaValid δ = true) (hc : compute q.basis tol = .ok g) :
    oversizedCoeff? g checkSlack = none ∧ lovaszFailure? g δ checkSlack = none := by
  have hg := (compute_recurrent hc).nearExact (hx.balanced hA)
  exact ⟨hx.oversizedCoeff?_eq_none hg, hx.lovaszFailure?_eq_none hA hG hg hδ⟩

end Progress.ExitNear

end CrystalLattice.Reduction
