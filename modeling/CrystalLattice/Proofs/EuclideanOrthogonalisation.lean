import Mathlib

/-!
# Gram–Schmidt over the reals

The exact orthogonalisation of three vectors of a real inner product space: `ortho₁ a₀ a₁` and
`ortho₂ a₀ a₁ a₂` are `a₁` and `a₂` less their projections on the orthogonal vectors before
them, with the coefficients `coeff a y = ⟪a, y⟫ / ‖y‖²`. Coefficients are linear in the
projected vector, so integer row operations move them by the integers and leave the orthogonal
vectors alone (`ortho₂_sub_smul`), and they move little when the vectors do (`abs_coeff_sub_le`).
-/

namespace CrystalLattice.Euclidean

open scoped InnerProductSpace

variable {E : Type*} [NormedAddCommGroup E] [InnerProductSpace ℝ E]

/-- The coefficient of `a` along `y`. -/
noncomputable def coeff (a y : E) : ℝ := ⟪a, y⟫_ℝ / ‖y‖ ^ 2

/-- The part of `a` orthogonal to `y`. -/
noncomputable def proj (y a : E) : E := a - coeff a y • y

noncomputable def ortho₁ (a₀ a₁ : E) : E := proj a₀ a₁

noncomputable def ortho₂ (a₀ a₁ a₂ : E) : E :=
  a₂ - coeff a₂ a₀ • a₀ - coeff a₂ (ortho₁ a₀ a₁) • ortho₁ a₀ a₁

section Coeff

variable {a b y : E}

theorem coeff_add (a b y : E) : coeff (a + b) y = coeff a y + coeff b y := by
  simp only [coeff, inner_add_left, add_div]

theorem coeff_sub (a b y : E) : coeff (a - b) y = coeff a y - coeff b y := by
  simp only [coeff, inner_sub_left, sub_div]

theorem coeff_smul (c : ℝ) (a y : E) : coeff (c • a) y = c * coeff a y := by
  simp only [coeff, real_inner_smul_left, mul_div_assoc]

theorem coeff_self (hy : y ≠ 0) : coeff y y = 1 := by
  rw [coeff, real_inner_self_eq_norm_sq]
  exact div_self (pow_ne_zero 2 (norm_ne_zero_iff.mpr hy))

theorem coeff_eq_zero_of_inner (h : ⟪a, y⟫_ℝ = 0) : coeff a y = 0 := by
  rw [coeff, h, zero_div]

theorem abs_coeff_le (a y : E) : |coeff a y| ≤ ‖a‖ / ‖y‖ := by
  rcases eq_or_ne y 0 with rfl | hy
  · simp [coeff]
  have hpos : 0 < ‖y‖ := norm_pos_iff.mpr hy
  rw [coeff, abs_div, abs_of_pos (pow_pos hpos 2), div_le_div_iff₀ (pow_pos hpos 2) hpos]
  calc |⟪a, y⟫_ℝ| * ‖y‖ ≤ ‖a‖ * ‖y‖ * ‖y‖ := by
        gcongr
        exact abs_real_inner_le_norm a y
    _ = ‖a‖ * ‖y‖ ^ 2 := by ring

theorem coeff_mul_norm_sq (a : E) (hy : y ≠ 0) : coeff a y * ‖y‖ ^ 2 = ⟪a, y⟫_ℝ :=
  div_mul_cancel₀ _ (pow_ne_zero 2 (norm_ne_zero_iff.mpr hy))

end Coeff

section Proj

variable {a y : E}

theorem inner_proj_self (a : E) (hy : y ≠ 0) : ⟪proj y a, y⟫_ℝ = 0 := by
  rw [proj, inner_sub_left, real_inner_smul_left, real_inner_self_eq_norm_sq,
    coeff_mul_norm_sq a hy, sub_self]

/-- Pythagoras for the projection: `a` splits into orthogonal parts. -/
theorem norm_sq_proj_add (a y : E) : ‖proj y a‖ ^ 2 + coeff a y ^ 2 * ‖y‖ ^ 2 = ‖a‖ ^ 2 := by
  rcases eq_or_ne y 0 with rfl | hy
  · simp [proj]
  have horth := inner_proj_self a hy
  have hsplit : a = proj y a + coeff a y • y := by rw [proj, sub_add_cancel]
  conv_rhs => rw [hsplit]
  rw [norm_add_sq_real, real_inner_smul_right, horth, norm_smul, Real.norm_eq_abs, mul_pow,
    sq_abs]
  ring

theorem norm_proj_le (y a : E) : ‖proj y a‖ ≤ ‖a‖ := by
  have h := norm_sq_proj_add a y
  have : ‖proj y a‖ ^ 2 ≤ ‖a‖ ^ 2 := by nlinarith [sq_nonneg (coeff a y), sq_nonneg ‖y‖]
  exact (pow_le_pow_iff_left₀ (norm_nonneg _) (norm_nonneg _) two_ne_zero).mp this

theorem proj_add (y a b : E) : proj y (a + b) = proj y a + proj y b := by
  simp only [proj, coeff_add, add_smul]
  abel

theorem proj_sub_smul_self (y a : E) (c : ℝ) (hy : y ≠ 0) : proj y (a - c • y) = proj y a := by
  simp only [proj, coeff_sub, coeff_smul, coeff_self hy, mul_one, sub_smul]
  abel

end Proj

section Orthogonal

variable {a₀ a₁ a₂ : E}

theorem inner_ortho₁ (a₁ : E) (h₀ : a₀ ≠ 0) : ⟪ortho₁ a₀ a₁, a₀⟫_ℝ = 0 :=
  inner_proj_self a₁ h₀

theorem inner_ortho₂_left (h₀ : a₀ ≠ 0) : ⟪ortho₂ a₀ a₁ a₂, a₀⟫_ℝ = 0 := by
  have h₁ := inner_ortho₁ a₁ h₀
  rw [ortho₂, inner_sub_left, real_inner_smul_left, h₁, mul_zero, sub_zero]
  exact inner_proj_self a₂ h₀

theorem inner_ortho₂_right (h₀ : a₀ ≠ 0) (h₁ : ortho₁ a₀ a₁ ≠ 0) :
    ⟪ortho₂ a₀ a₁ a₂, ortho₁ a₀ a₁⟫_ℝ = 0 := by
  have h₀₁ : ⟪a₀, ortho₁ a₀ a₁⟫_ℝ = 0 := by rw [real_inner_comm]; exact inner_ortho₁ a₁ h₀
  rw [ortho₂, inner_sub_left, inner_sub_left, real_inner_smul_left, real_inner_smul_left, h₀₁,
    real_inner_self_eq_norm_sq, coeff_mul_norm_sq a₂ h₁]
  ring

/-- The second orthogonal vector is the first projection followed by the second: the
coefficient against `ortho₁` does not see the part of `a₂` along `a₀`. -/
theorem ortho₂_eq_proj (h₀ : a₀ ≠ 0) :
    ortho₂ a₀ a₁ a₂ = proj (ortho₁ a₀ a₁) (proj a₀ a₂) := by
  have h₀₁ : ⟪a₀, ortho₁ a₀ a₁⟫_ℝ = 0 := by rw [real_inner_comm]; exact inner_ortho₁ a₁ h₀
  have hc : coeff (proj a₀ a₂) (ortho₁ a₀ a₁) = coeff a₂ (ortho₁ a₀ a₁) := by
    rw [proj, coeff_sub, coeff_smul, coeff_eq_zero_of_inner h₀₁, mul_zero, sub_zero]
  rw [ortho₂, proj, hc, proj]

theorem norm_ortho₁_le (a₀ a₁ : E) : ‖ortho₁ a₀ a₁‖ ≤ ‖a₁‖ :=
  norm_proj_le a₀ a₁

theorem norm_ortho₂_le (h₀ : a₀ ≠ 0) : ‖ortho₂ a₀ a₁ a₂‖ ≤ ‖a₂‖ := by
  rw [ortho₂_eq_proj h₀]
  exact (norm_proj_le _ _).trans (norm_proj_le _ _)

end Orthogonal

section RowOperations

variable {a₀ a₁ b₁ x e : E}

/-- Subtracting `q` times `a₀` from `a₁` and adding `e` moves their coefficient by `q` and by the
coefficient of `e`. -/
theorem coeff_sub_smul_add (h₀ : a₀ ≠ 0) (q : ℝ) :
    coeff (a₁ - q • a₀ + e) a₀ = coeff a₁ a₀ - q + coeff e a₀ := by
  rw [coeff_add, coeff_sub, coeff_smul, coeff_self h₀, mul_one]

theorem ortho₁_sub_smul_add (h₀ : a₀ ≠ 0) (q : ℝ) :
    ortho₁ a₀ (a₁ - q • a₀ + e) = ortho₁ a₀ a₁ + proj a₀ e := by
  rw [ortho₁, ortho₁, proj_add, proj_sub_smul_self _ _ _ h₀]

theorem coeff_ortho₁_self_add (h₀ : a₀ ≠ 0) (h₁ : ortho₁ a₀ b₁ ≠ 0) :
    coeff b₁ (ortho₁ a₀ b₁) = 1 := by
  have h₀₁ : ⟪a₀, ortho₁ a₀ b₁⟫_ℝ = 0 := by rw [real_inner_comm]; exact inner_ortho₁ b₁ h₀
  have hsplit : coeff b₁ (ortho₁ a₀ b₁) =
      coeff (ortho₁ a₀ b₁ + coeff b₁ a₀ • a₀) (ortho₁ a₀ b₁) := by
    rw [ortho₁, proj, sub_add_cancel]
  rw [hsplit, coeff_add, coeff_smul, coeff_eq_zero_of_inner h₀₁, coeff_self h₁, mul_zero,
    add_zero]

/-- Row operations on the third vector by the first two: its coefficient against the
orthogonalised second vector drops by the multiple of the second vector taken. -/
theorem coeff_ortho₁_sub_smul (h₀ : a₀ ≠ 0) (h₁ : ortho₁ a₀ b₁ ≠ 0) (c d : ℝ) :
    coeff (x - c • b₁ - d • a₀) (ortho₁ a₀ b₁) = coeff x (ortho₁ a₀ b₁) - c := by
  have h₀₁ : ⟪a₀, ortho₁ a₀ b₁⟫_ℝ = 0 := by rw [real_inner_comm]; exact inner_ortho₁ b₁ h₀
  rw [coeff_sub, coeff_sub, coeff_smul, coeff_smul, coeff_ortho₁_self_add h₀ h₁,
    coeff_eq_zero_of_inner h₀₁]
  ring

theorem coeff_sub_smul_sub_smul (h₀ : a₀ ≠ 0) (c d : ℝ) :
    coeff (x - c • b₁ - d • a₀) a₀ = coeff x a₀ - c * coeff b₁ a₀ - d := by
  rw [coeff_sub, coeff_sub, coeff_smul, coeff_smul, coeff_self h₀, mul_one]

/-- Row operations by the first two vectors leave the third orthogonal vector alone. -/
theorem ortho₂_sub_smul (h₀ : a₀ ≠ 0) (h₁ : ortho₁ a₀ b₁ ≠ 0) (c d : ℝ) :
    ortho₂ a₀ b₁ (x - c • b₁ - d • a₀) = ortho₂ a₀ b₁ x := by
  have hb : b₁ = ortho₁ a₀ b₁ + coeff b₁ a₀ • a₀ := by rw [ortho₁, proj, sub_add_cancel]
  rw [ortho₂, ortho₂, coeff_ortho₁_sub_smul h₀ h₁, coeff_sub_smul_sub_smul h₀]
  generalize ortho₁ a₀ b₁ = z at hb ⊢
  generalize coeff b₁ a₀ = ν at hb ⊢
  subst hb
  module

end RowOperations

section Perturbation

variable {a b y z : E}

/-- A coefficient moves little when the projected vector and the vector it is projected on
move little against the length of the latter. -/
theorem abs_coeff_sub_le (hy : y ≠ 0) (hz : ‖z - y‖ ≤ ‖y‖ / 8) :
    |coeff b z - coeff a y| ≤ 2 * ‖b - a‖ / ‖y‖ + 5 * ‖a‖ * ‖z - y‖ / ‖y‖ ^ 2 := by
  have hY : 0 < ‖y‖ := norm_pos_iff.mpr hy
  have hzlow : 7 / 8 * ‖y‖ ≤ ‖z‖ := by
    have := norm_sub_norm_le y z
    rw [norm_sub_rev] at this
    linarith
  have hZ : 0 < ‖z‖ := by linarith
  have hzup : ‖z‖ ≤ 9 / 8 * ‖y‖ := by
    have := norm_le_insert' z y
    linarith [norm_sub_rev z y]
  -- three parts: the change of `a`, of the inner product with `z`, and of `1 / ‖z‖²`
  have hsplit : coeff b z - coeff a y = ⟪b - a, z⟫_ℝ / ‖z‖ ^ 2 + ⟪a, z - y⟫_ℝ / ‖z‖ ^ 2 +
      ⟪a, y⟫_ℝ * (‖y‖ ^ 2 - ‖z‖ ^ 2) / (‖z‖ ^ 2 * ‖y‖ ^ 2) := by
    rw [coeff, coeff, inner_sub_left, inner_sub_right]
    field_simp
    ring
  have h₁ : |⟪b - a, z⟫_ℝ / ‖z‖ ^ 2| ≤ ‖b - a‖ / ‖z‖ := by
    rw [abs_div, abs_of_pos (pow_pos hZ 2), div_le_div_iff₀ (pow_pos hZ 2) hZ]
    nlinarith [abs_real_inner_le_norm (b - a) z, norm_nonneg (b - a)]
  have h₂ : |⟪a, z - y⟫_ℝ / ‖z‖ ^ 2| ≤ ‖a‖ * ‖z - y‖ / ‖z‖ ^ 2 := by
    rw [abs_div, abs_of_pos (pow_pos hZ 2)]
    gcongr
    exact abs_real_inner_le_norm a (z - y)
  have hdiff : |‖y‖ ^ 2 - ‖z‖ ^ 2| ≤ ‖z - y‖ * (‖z‖ + ‖y‖) := by
    have h := abs_norm_sub_norm_le z y
    rw [show ‖y‖ ^ 2 - ‖z‖ ^ 2 = (‖y‖ - ‖z‖) * (‖y‖ + ‖z‖) by ring, abs_mul,
      abs_of_pos (by positivity : 0 < ‖y‖ + ‖z‖), abs_sub_comm]
    rw [add_comm ‖y‖]
    gcongr
  have h₃ : |⟪a, y⟫_ℝ * (‖y‖ ^ 2 - ‖z‖ ^ 2) / (‖z‖ ^ 2 * ‖y‖ ^ 2)| ≤
      ‖a‖ * ‖z - y‖ * (‖z‖ + ‖y‖) / (‖z‖ ^ 2 * ‖y‖) := by
    rw [abs_div, abs_mul, abs_of_pos (by positivity : 0 < ‖z‖ ^ 2 * ‖y‖ ^ 2),
      div_le_div_iff₀ (by positivity) (by positivity)]
    have hin := abs_real_inner_le_norm a y
    calc |⟪a, y⟫_ℝ| * |‖y‖ ^ 2 - ‖z‖ ^ 2| * (‖z‖ ^ 2 * ‖y‖)
        ≤ ‖a‖ * ‖y‖ * (‖z - y‖ * (‖z‖ + ‖y‖)) * (‖z‖ ^ 2 * ‖y‖) := by gcongr
      _ = ‖a‖ * ‖z - y‖ * (‖z‖ + ‖y‖) * (‖z‖ ^ 2 * ‖y‖ ^ 2) := by ring
  -- against `‖y‖` each part is at most its share of the bound
  have hz₁ : ‖b - a‖ / ‖z‖ ≤ 2 * ‖b - a‖ / ‖y‖ := by
    rw [div_le_div_iff₀ hZ hY]
    nlinarith [norm_nonneg (b - a)]
  have hz₂ : ‖a‖ * ‖z - y‖ / ‖z‖ ^ 2 ≤ 2 * ‖a‖ * ‖z - y‖ / ‖y‖ ^ 2 := by
    rw [div_le_div_iff₀ (by positivity) (by positivity)]
    have : ‖y‖ ^ 2 ≤ 2 * ‖z‖ ^ 2 := by nlinarith
    nlinarith [mul_nonneg (norm_nonneg a) (norm_nonneg (z - y))]
  have hz₃ : ‖a‖ * ‖z - y‖ * (‖z‖ + ‖y‖) / (‖z‖ ^ 2 * ‖y‖) ≤ 3 * ‖a‖ * ‖z - y‖ / ‖y‖ ^ 2 := by
    rw [div_le_div_iff₀ (by positivity) (by positivity)]
    have hzz : (‖z‖ + ‖y‖) * ‖y‖ ≤ 3 * ‖z‖ ^ 2 := by nlinarith
    have hn := mul_nonneg (norm_nonneg a) (norm_nonneg (z - y))
    calc ‖a‖ * ‖z - y‖ * (‖z‖ + ‖y‖) * ‖y‖ ^ 2
        = ‖a‖ * ‖z - y‖ * ((‖z‖ + ‖y‖) * ‖y‖) * ‖y‖ := by ring
      _ ≤ ‖a‖ * ‖z - y‖ * (3 * ‖z‖ ^ 2) * ‖y‖ := by gcongr
      _ = 3 * ‖a‖ * ‖z - y‖ * (‖z‖ ^ 2 * ‖y‖) := by ring
  rw [hsplit]
  calc _ ≤ |⟪b - a, z⟫_ℝ / ‖z‖ ^ 2| + |⟪a, z - y⟫_ℝ / ‖z‖ ^ 2| +
        |⟪a, y⟫_ℝ * (‖y‖ ^ 2 - ‖z‖ ^ 2) / (‖z‖ ^ 2 * ‖y‖ ^ 2)| := abs_add_three _ _ _
    _ ≤ 2 * ‖b - a‖ / ‖y‖ + 5 * ‖a‖ * ‖z - y‖ / ‖y‖ ^ 2 := by
      have : 5 * ‖a‖ * ‖z - y‖ / ‖y‖ ^ 2 =
          2 * ‖a‖ * ‖z - y‖ / ‖y‖ ^ 2 + 3 * ‖a‖ * ‖z - y‖ / ‖y‖ ^ 2 := by ring
      linarith

/-- A vector within `ε` of `u - m • w` is no longer than `u` and `m` times `w` together, and `ε`. -/
theorem norm_le_of_norm_sub_sub_smul_le {u v w : E} {m ε : ℝ} (h : ‖v - (u - m • w)‖ ≤ ε) :
    ‖v‖ ≤ ‖u‖ + |m| * ‖w‖ + ε := by
  have h₁ := norm_le_insert' v (u - m • w)
  have h₂ := norm_sub_le u (m • w)
  rw [norm_smul, Real.norm_eq_abs] at h₂
  linarith

/-- The part of `v` orthogonal to `z` is near the part of `u` orthogonal to `y` when `v` is near
`u` and `z` is near `y` against its length. -/
theorem norm_proj_sub_proj_le {u v : E} (hy : y ≠ 0) (hz : ‖z - y‖ ≤ ‖y‖ / 8) :
    ‖proj z v - proj y u‖ ≤ 4 * ‖v - u‖ + 7 * ‖u‖ * ‖z - y‖ / ‖y‖ := by
  have hY : 0 < ‖y‖ := norm_pos_iff.mpr hy
  have hzup : ‖z‖ ≤ 9 / 8 * ‖y‖ := by
    have := norm_le_insert' z y
    linarith [norm_sub_rev z y]
  have hc := abs_coeff_sub_le (a := u) (b := v) hy hz
  have hcx : |coeff u y| ≤ ‖u‖ / ‖y‖ := abs_coeff_le u y
  have hsplit : proj z v - proj y u =
      (v - u) - (coeff v z - coeff u y) • z - coeff u y • (z - y) := by
    simp only [proj]
    module
  calc ‖proj z v - proj y u‖
      ≤ ‖v - u‖ + |coeff v z - coeff u y| * ‖z‖ + |coeff u y| * ‖z - y‖ := by
        rw [hsplit, ← Real.norm_eq_abs, ← Real.norm_eq_abs, ← norm_smul, ← norm_smul]
        exact (norm_sub_le _ _).trans (add_le_add (norm_sub_le _ _) le_rfl)
    _ ≤ ‖v - u‖ + (2 * ‖v - u‖ / ‖y‖ + 5 * ‖u‖ * ‖z - y‖ / ‖y‖ ^ 2) * (9 / 8 * ‖y‖) +
        ‖u‖ / ‖y‖ * ‖z - y‖ := by gcongr
    _ = 13 / 4 * ‖v - u‖ + 53 / 8 * (‖u‖ * ‖z - y‖ / ‖y‖) := by
        field_simp
        ring
    _ ≤ 4 * ‖v - u‖ + 7 * ‖u‖ * ‖z - y‖ / ‖y‖ := by
        have : 0 ≤ ‖u‖ * ‖z - y‖ / ‖y‖ := by positivity
        have e : 7 * ‖u‖ * ‖z - y‖ / ‖y‖ = 7 * (‖u‖ * ‖z - y‖ / ‖y‖) := by ring
        rw [e]
        linarith [norm_nonneg (v - u)]

/-- The third orthogonal vector moves little when the third vector does and the second
orthogonal vector moves little against its length. -/
theorem norm_ortho₂_sub_le {a₀ a₁ b₁ a₂ e : E} (h₀ : a₀ ≠ 0) (h₁ : ortho₁ a₀ a₁ ≠ 0)
    (hb : ‖ortho₁ a₀ b₁ - ortho₁ a₀ a₁‖ ≤ ‖ortho₁ a₀ a₁‖ / 8) :
    ‖ortho₂ a₀ b₁ (a₂ + e) - ortho₂ a₀ a₁ a₂‖ ≤
      4 * ‖e‖ + 7 * ‖a₂‖ * ‖ortho₁ a₀ b₁ - ortho₁ a₀ a₁‖ / ‖ortho₁ a₀ a₁‖ := by
  have hx : proj a₀ (a₂ + e) - proj a₀ a₂ = proj a₀ e := by rw [proj_add, add_sub_cancel_left]
  have h := norm_proj_sub_proj_le (u := proj a₀ a₂) (v := proj a₀ (a₂ + e)) h₁ hb
  rw [hx] at h
  rw [ortho₂_eq_proj h₀, ortho₂_eq_proj h₀]
  refine h.trans ?_
  gcongr
  · exact norm_proj_le _ _
  · exact norm_proj_le _ _

end Perturbation

end CrystalLattice.Euclidean
