import Mathlib
import CrystalLattice.Proofs.Binary64Vectors
import CrystalLattice.Proofs.EuclideanOrthogonalisation
import CrystalLattice.Proofs.GramSchmidt

/-!
# The error of the binary64 orthogonalisation

In binary64 `compute` follows the recurrence of the exact orthogonalisation of the rows' values
one rounded operation at a time (`GramSchmidt.compute_recurrent`). For rows at most five times
as long as every exact orthogonal vector, every computed coefficient and squared length lies
within a few hundred roundings of the exact one, measured against the lengths it is made of
(`GramSchmidt.Recurrent.nearExact`).
-/

namespace CrystalLattice

open Binary64 CrystalLattice.Euclidean
open scoped InnerProductSpace

section Underflow

theorem underflow_mul_le : underflow * 2 ^ 200 ≤ 1 / 2 ^ 200 / 2 ^ 53 / 2 ^ 100 := by
  have hsplit : (2 : ℝ) ^ 1075 = 2 ^ 875 * 2 ^ 200 := by rw [← pow_add]
  have hright : (1 : ℝ) / 2 ^ 200 / 2 ^ 53 / 2 ^ 100 = 1 / 2 ^ 353 := by
    rw [div_div, div_div, ← pow_add, ← pow_add]
  rw [underflow, hsplit, hright, one_div_mul_eq_div,
    show (2 : ℝ) ^ 200 / (2 ^ 875 * 2 ^ 200) = 1 / 2 ^ 875 by field_simp]
  exact one_div_le_one_div_of_le (by positivity) (pow_le_pow_right₀ (by norm_num) (by norm_num))

/-- Against quantities of at least `2⁻²⁰⁰` the underflow is far below one rounding. -/
theorem underflow_div_le {x y : ℝ} (hx : 1 / 2 ^ 200 ≤ x) (hy : 1 / 2 ^ 200 ≤ y) :
    underflow / y ≤ x / 2 ^ 53 / 2 ^ 100 := by
  calc underflow / y ≤ underflow / (1 / 2 ^ 200) :=
        div_le_div_of_nonneg_left underflow_nonneg (by positivity) hy
    _ = underflow * 2 ^ 200 := by rw [div_div_eq_mul_div, div_one]
    _ ≤ 1 / 2 ^ 200 / 2 ^ 53 / 2 ^ 100 := underflow_mul_le
    _ ≤ x / 2 ^ 53 / 2 ^ 100 := by gcongr

theorem underflow_le_of_le {x : ℝ} (hx : 1 / 2 ^ 200 ≤ x) : underflow ≤ x / 2 ^ 53 / 2 ^ 100 := by
  have h := underflow_div_le hx (by norm_num : (1 : ℝ) / 2 ^ 200 ≤ 1)
  rwa [div_one] at h

theorem underflow_le_tiny : underflow ≤ 1 / 2 ^ 54 := by
  have h := underflow_le_of_le (x := 1) (by norm_num)
  have h' : (1 : ℝ) / 2 ^ 53 / 2 ^ 100 ≤ 1 / 2 ^ 54 := by norm_num
  linarith

theorem underflow_le_one : underflow ≤ 1 :=
  underflow_le_tiny.trans (by norm_num)

/-- Three roundings of values of total size at most `K Y`, with the underflow far below
`Y / 2⁵³`, cost at most `3 K + 1` roundings of `Y`. -/
theorem roundings_le {S K Y : ℝ} (hY : 0 ≤ Y) (hS : S ≤ K * Y)
    (hη : underflow ≤ Y / 2 ^ 53 / 2 ^ 100) :
    3 * S / 2 ^ 53 + 5 * underflow ≤ (3 * K + 1) * (Y / 2 ^ 53) := by
  have h₁ : 3 * S / 2 ^ 53 ≤ 3 * K * (Y / 2 ^ 53) :=
    calc 3 * S / 2 ^ 53 ≤ 3 * (K * Y) / 2 ^ 53 := by gcongr
      _ = 3 * K * (Y / 2 ^ 53) := by ring
  have h₂ : Y / 2 ^ 53 / 2 ^ 100 ≤ Y / 2 ^ 53 / 5 :=
    div_le_div_of_nonneg_left (by positivity) (by norm_num) (by norm_num)
  linarith

end Underflow

section Quotients

/-- A ratio of two lengths in `[2⁻⁶⁰, 2⁶⁰]` lies in `[2⁻¹²⁰, 2¹²⁰]`. -/
theorem div_mem_of_mem {A r : ℝ} (hA₀ : 1 / 2 ^ 60 ≤ A) (hA₁ : A ≤ 2 ^ 60)
    (hr₀ : 1 / 2 ^ 60 ≤ r) (hr₁ : r ≤ 2 ^ 60) : 1 / 2 ^ 120 ≤ A / r ∧ A / r ≤ 2 ^ 120 := by
  have hr : 0 < r := lt_of_lt_of_le (by positivity) hr₀
  have e : (2 : ℝ) ^ 120 = 2 ^ 60 * 2 ^ 60 := by rw [← pow_add]
  constructor
  · rw [le_div_iff₀ hr]
    calc 1 / 2 ^ 120 * r ≤ 1 / 2 ^ 120 * 2 ^ 60 := by gcongr
      _ = 1 / 2 ^ 60 := by rw [e]; field_simp
      _ ≤ A := hA₀
  · rw [div_le_iff₀ hr]
    calc A ≤ 2 ^ 60 := hA₁
      _ = 2 ^ 120 * (1 / 2 ^ 60) := by rw [e]; field_simp
      _ ≤ 2 ^ 120 * r := by gcongr

/-- Dividing a value within `E` of `c s` by one within `σ s` of `s > 0`, for `σ ≤ 1/8`, gives a
value within `8/7 (E / s + σ |c|)` of `c`. -/
theorem abs_div_sub_le_of_near {D M c s E σ : ℝ} (hs : 0 < s) (hσ : σ ≤ 1 / 8)
    (hD : |D - c * s| ≤ E) (hM : |M - s| ≤ σ * s) :
    |D / M - c| ≤ 8 / 7 * (E / s + σ * |c|) := by
  have hσs : σ * s ≤ 1 / 8 * s := mul_le_mul_of_nonneg_right hσ hs.le
  have hM₀ : 7 / 8 * s ≤ M := by linarith [(abs_le.mp hM).1]
  have hMpos : 0 < M := by linarith
  have hsplit : D / M - c = ((D - c * s) + c * (s - M)) / M := by
    field_simp
    ring
  have hnum : |(D - c * s) + c * (s - M)| ≤ E + |c| * (σ * s) :=
    calc _ ≤ |D - c * s| + |c * (s - M)| := abs_add_le _ _
      _ ≤ E + |c| * (σ * s) := by
        rw [abs_mul, abs_sub_comm s M]
        gcongr
  have hE : 0 ≤ E + |c| * (σ * s) := (abs_nonneg _).trans hnum
  rw [hsplit, abs_div, abs_of_pos hMpos]
  calc _ ≤ (E + |c| * (σ * s)) / M := div_le_div_of_nonneg_right hnum hMpos.le
    _ ≤ (E + |c| * (σ * s)) / (7 / 8 * s) := div_le_div_of_nonneg_left hE (by positivity) hM₀
    _ = 8 / 7 * (E / s + σ * |c|) := by field_simp

end Quotients

namespace Vec3

variable {a o : Vec3 Float} {m : Float} {y : EuclideanSpace ℝ (Fin 3)}

theorem norm_le_of_norm_sub_le {p q : EuclideanSpace ℝ (Fin 3)} {ρ : ℝ} (h : ‖p - q‖ ≤ ρ * ‖q‖)
    (hρ : ρ ≤ 1 / 8) : ‖p‖ ≤ 9 / 8 * ‖q‖ := by
  have := norm_le_insert' p q
  nlinarith [norm_nonneg q, norm_nonneg (p - q)]

/-- The squared length of a vector within `ρ ‖y‖` of `y` is within `3 ρ ‖y‖²` and six roundings of
`‖y‖²`. -/
theorem abs_normSq_sub_le {ρ : ℝ} (ho : o.IsFinite) (hρ₀ : 0 ≤ ρ) (hρ : ρ ≤ 1 / 8)
    (hoy : ‖o.real - y‖ ≤ ρ * ‖y‖) (hy : ‖y‖ ≤ 2 ^ 60) :
    o.normSq.isFinite = true ∧
      |Binary64.real o.normSq - ‖y‖ ^ 2| ≤ (6 / 2 ^ 53 + 3 * ρ) * ‖y‖ ^ 2 + 6 * underflow := by
  have hr := norm_nonneg y
  have hO := norm_le_of_norm_sub_le hoy hρ
  have hOO : ‖o.real‖ * ‖o.real‖ ≤ 2 ^ 1000 := by
    have hy' : 9 / 8 * ‖y‖ ≤ 2 ^ 61 := by
      have h2 : (2 : ℝ) ^ 61 = 2 * 2 ^ 60 := by rw [pow_succ']
      have h0 : (0 : ℝ) ≤ 2 ^ 60 := by positivity
      linarith
    calc ‖o.real‖ * ‖o.real‖ ≤ 2 ^ 61 * 2 ^ 61 := by
          gcongr <;> exact hO.trans hy'
      _ = 2 ^ 122 := by rw [← pow_add]
      _ ≤ 2 ^ 1000 := pow_le_pow_right₀ (by norm_num) (by norm_num)
  obtain ⟨hfin, hdot⟩ := rounds_dot ho ho hOO
  rw [real_inner_self_eq_norm_sq, ← sq] at hdot
  have hsq : |‖o.real‖ ^ 2 - ‖y‖ ^ 2| ≤ 3 * ρ * ‖y‖ ^ 2 := by
    have hdiff : |‖o.real‖ - ‖y‖| ≤ ρ * ‖y‖ := (abs_norm_sub_norm_le _ _).trans hoy
    rw [show ‖o.real‖ ^ 2 - ‖y‖ ^ 2 = (‖o.real‖ - ‖y‖) * (‖o.real‖ + ‖y‖) by ring, abs_mul,
      abs_of_nonneg (by positivity : 0 ≤ ‖o.real‖ + ‖y‖)]
    calc |‖o.real‖ - ‖y‖| * (‖o.real‖ + ‖y‖) ≤ ρ * ‖y‖ * (17 / 8 * ‖y‖) := by
          gcongr
          linarith
      _ ≤ 3 * ρ * ‖y‖ ^ 2 := by nlinarith [mul_nonneg hρ₀ (sq_nonneg ‖y‖)]
  refine ⟨hfin, ?_⟩
  have hO2 : 4 * ‖o.real‖ ^ 2 / 2 ^ 53 ≤ 6 * ‖y‖ ^ 2 / 2 ^ 53 := by
    apply div_le_div_of_nonneg_right _ (by positivity)
    have : ‖o.real‖ ^ 2 ≤ (9 / 8 * ‖y‖) ^ 2 := pow_le_pow_left₀ (norm_nonneg _) hO 2
    nlinarith
  calc |Binary64.real o.normSq - ‖y‖ ^ 2|
      ≤ |Binary64.real o.normSq - ‖o.real‖ ^ 2| + |‖o.real‖ ^ 2 - ‖y‖ ^ 2| := abs_sub_le _ _ _
    _ ≤ 4 * ‖o.real‖ ^ 2 / 2 ^ 53 + 6 * underflow + 3 * ρ * ‖y‖ ^ 2 := add_le_add hdot hsq
    _ ≤ (6 / 2 ^ 53 + 3 * ρ) * ‖y‖ ^ 2 + 6 * underflow := by
      have e : (6 / 2 ^ 53 + 3 * ρ) * ‖y‖ ^ 2 = 6 * ‖y‖ ^ 2 / 2 ^ 53 + 3 * ρ * ‖y‖ ^ 2 := by ring
      linarith

/-- A coefficient `(a · o) / m` computed from `o` within `ρ ‖y‖` of `y` and `m` within `σ ‖y‖²`
of `‖y‖²` is within `‖a‖ / ‖y‖ · (8 u + 2 ρ + 2 σ)` of the exact coefficient of `a` along `y`. -/
theorem abs_dot_div_sub_coeff_le {ρ σ : ℝ} (ha : a.IsFinite) (ho : o.IsFinite)
    (hm : m.isFinite = true) (hρ₀ : 0 ≤ ρ) (hρ : ρ ≤ 1 / 8) (hσ₀ : 0 ≤ σ)
    (hσ : σ ≤ 1 / 8) (hoy : ‖o.real - y‖ ≤ ρ * ‖y‖)
    (hmy : |Binary64.real m - ‖y‖ ^ 2| ≤ σ * ‖y‖ ^ 2)
    (ha₀ : 1 / 2 ^ 60 ≤ ‖a.real‖) (ha₁ : ‖a.real‖ ≤ 2 ^ 60)
    (hy₀ : 1 / 2 ^ 60 ≤ ‖y‖) (hy₁ : ‖y‖ ≤ 2 ^ 60) :
    ((a.dot o) / m).isFinite = true ∧
      |Binary64.real ((a.dot o) / m) - coeff a.real y| ≤
        ‖a.real‖ / ‖y‖ * (8 / 2 ^ 53 + 2 * ρ + 2 * σ) := by
  have hr : 0 < ‖y‖ := lt_of_lt_of_le (by positivity) hy₀
  have hO := norm_le_of_norm_sub_le hoy hρ
  obtain ⟨hR₀, hR₁⟩ := div_mem_of_mem ha₀ ha₁ hy₀ hy₁
  set A := ‖a.real‖ with hA
  set r := ‖y‖ with hrdef
  set R := A / r with hR
  have hRpos : 0 ≤ R := le_trans (by positivity) hR₀
  have hAr : A * r = R * r ^ 2 := by rw [hR]; field_simp
  -- the dot product against `o`, then against `y`
  have hAO : A * ‖o.real‖ ≤ 2 ^ 1000 := by
    have h61 : 9 / 8 * (2 : ℝ) ^ 60 ≤ 2 ^ 61 := by
      have h2 : (2 : ℝ) ^ 61 = 2 * 2 ^ 60 := by rw [pow_succ']
      have h0 : (0 : ℝ) ≤ 2 ^ 60 := by positivity
      linarith
    calc A * ‖o.real‖ ≤ 2 ^ 60 * 2 ^ 61 := by
          gcongr
          linarith
      _ = 2 ^ 121 := by rw [← pow_add]
      _ ≤ 2 ^ 1000 := pow_le_pow_right₀ (by norm_num) (by norm_num)
  obtain ⟨hDfin, hD⟩ := rounds_dot ha ho hAO
  set D := Binary64.real (a.dot o) with hDdef
  have hDy : |D - ⟪a.real, y⟫_ℝ| ≤ R * r ^ 2 * (9 / 2 / 2 ^ 53 + ρ) + 6 * underflow := by
    have hin : |⟪a.real, o.real⟫_ℝ - ⟪a.real, y⟫_ℝ| ≤ A * (ρ * r) := by
      rw [← inner_sub_right]
      exact (abs_real_inner_le_norm _ _).trans (by gcongr)
    have h4 : 4 * (A * ‖o.real‖) / 2 ^ 53 ≤ A * r * (9 / 2) / 2 ^ 53 := by
      apply div_le_div_of_nonneg_right _ (by positivity)
      have : A * ‖o.real‖ ≤ A * (9 / 8 * r) := mul_le_mul_of_nonneg_left hO (norm_nonneg _)
      linarith
    have e₁ : A * (ρ * r) = R * r ^ 2 * ρ := by rw [← hAr]; ring
    have e₂ : A * r * (9 / 2) / 2 ^ 53 = R * r ^ 2 * (9 / 2 / 2 ^ 53) := by rw [hAr]; ring
    have htri := abs_sub_le D ⟪a.real, o.real⟫_ℝ ⟪a.real, y⟫_ℝ
    rw [mul_add]
    linarith
  -- the quotient by `m`, near `‖y‖²`
  have hm₀ : 7 / 8 * r ^ 2 ≤ Binary64.real m := by
    have := (abs_le.mp hmy).1
    nlinarith [sq_nonneg r]
  have hr2 : 0 < r ^ 2 := by positivity
  have hmpos : 0 < Binary64.real m := lt_of_lt_of_le (by positivity) hm₀
  have hμ : |coeff a.real y| ≤ R := abs_coeff_le _ _
  have hcoeff : coeff a.real y * r ^ 2 = ⟪a.real, y⟫_ℝ := coeff_mul_norm_sq _ (norm_pos_iff.mp hr)
  set W := underflow / r ^ 2 with hWdef
  have hW0 : 0 ≤ W := div_nonneg underflow_nonneg hr2.le
  set X := |D / Binary64.real m - coeff a.real y| with hXdef
  have hX : X ≤ 8 / 7 * (R * (9 / 2 / 2 ^ 53 + ρ + σ)) + 7 * W := by
    rw [← hcoeff] at hDy
    have h := abs_div_sub_le_of_near hr2 hσ hDy hmy
    have e : (R * r ^ 2 * (9 / 2 / 2 ^ 53 + ρ) + 6 * underflow) / r ^ 2 =
        R * (9 / 2 / 2 ^ 53 + ρ) + 6 * W := by
      rw [hWdef]
      field_simp
    rw [e] at h
    have hσμ : σ * |coeff a.real y| ≤ σ * R := mul_le_mul_of_nonneg_left hμ hσ₀
    linarith
  -- the rounded quotient
  have hsmall₁ : R * ρ ≤ R / 8 := by nlinarith
  have hsmall₂ : R * σ ≤ R / 8 := by nlinarith
  have hpos₁ : 0 ≤ R * ρ := mul_nonneg hRpos hρ₀
  have hpos₂ : 0 ≤ R * σ := mul_nonneg hRpos hσ₀
  have hηR : 8 * W + underflow ≤ R / 2 ^ 53 := by
    have hr2' : 1 / 2 ^ 200 ≤ r ^ 2 := by
      calc (1 : ℝ) / 2 ^ 200 ≤ 1 / 2 ^ 60 * (1 / 2 ^ 60) := by
            rw [div_mul_div_comm, one_mul, ← pow_add]
            exact one_div_le_one_div_of_le (by positivity)
              (pow_le_pow_right₀ (by norm_num) (by norm_num))
        _ ≤ r * r := by gcongr
        _ = r ^ 2 := by ring
    have hR2 : 1 / 2 ^ 200 ≤ R :=
      le_trans (one_div_le_one_div_of_le (by positivity)
        (pow_le_pow_right₀ (by norm_num) (by norm_num))) hR₀
    have h1 := underflow_div_le hR2 hr2'
    have h2 := underflow_le_of_le hR2
    rw [← hWdef] at h1
    linarith
  have hXR : X ≤ R / 2 := by
    have := underflow_nonneg
    linarith
  have hq : |D / Binary64.real m| ≤ R + X := by
    have := abs_sub_abs_le_abs_sub (D / Binary64.real m) (coeff a.real y)
    rw [← hXdef] at this
    linarith
  have hq' : |D / Binary64.real m| ≤ 2 ^ 1023 := by
    calc |D / Binary64.real m| ≤ 2 * 2 ^ 120 := by linarith
      _ = 2 ^ 121 := (pow_succ' 2 120).symm
      _ ≤ 2 ^ 1023 := pow_le_pow_right₀ (by norm_num) (by norm_num)
  have hround := rounds_div hDfin hm hmpos.ne' hq'
  refine ⟨hround.isFinite, ?_⟩
  have hc := hround.abs_sub_le
  have htri := abs_sub_le (Binary64.real ((a.dot o) / m)) (D / Binary64.real m) (coeff a.real y)
  have hq53 : |D / Binary64.real m| / 2 ^ 53 ≤ (R + X) / 2 ^ 53 := by gcongr
  have e : R * (8 / 2 ^ 53 + 2 * ρ + 2 * σ) = 8 * R / 2 ^ 53 + 2 * (R * ρ) + 2 * (R * σ) := by
    ring
  rw [e]
  linarith

theorem norm_scale_le {v : Vec3 Float} {c : Float} (hc : c.isFinite = true) (hv : v.IsFinite)
    (hP : |Binary64.real c| * ‖v.real‖ ≤ 2 ^ 120) :
    (v.scale c).IsFinite ∧
      ‖(v.scale c).real - Binary64.real c • v.real‖ ≤
        |Binary64.real c| * ‖v.real‖ / 2 ^ 53 + 2 * underflow ∧
      ‖(v.scale c).real‖ ≤ |Binary64.real c| * ‖v.real‖ +
        (|Binary64.real c| * ‖v.real‖ / 2 ^ 53 + 2 * underflow) := by
  obtain ⟨hf, hs⟩ := rounds_scale hc hv (hP.trans (pow_le_pow_right₀ (by norm_num) (by norm_num)))
  refine ⟨hf, hs, ?_⟩
  have := norm_le_insert' (v.scale c).real (Binary64.real c • v.real)
  rw [norm_smul, Real.norm_eq_abs] at this
  linarith

/-- The residual `a₁ - z`, for a vector `z` with the value of `c a₀` computed in binary64, is
within `|c - μ| ‖a₀‖` and three roundings of `a₁ - μ a₀`. -/
theorem norm_sub_sub_le_of_real_eq {a₀ a₁ z : Vec3 Float} {c : Float} (μ : ℝ)
    (hz : z.real = (a₀.scale c).real) (hzf : (a₀.scale c).IsFinite → z.IsFinite)
    (ha₀ : a₀.IsFinite) (ha₁ : a₁.IsFinite) (hc : c.isFinite = true) (hA₀ : ‖a₀.real‖ ≤ 2 ^ 60)
    (hA₁ : ‖a₁.real‖ ≤ 2 ^ 60) (hC : |Binary64.real c| ≤ 2 ^ 60) :
    (a₁.sub z).IsFinite ∧
      ‖(a₁.sub z).real - (a₁.real - μ • a₀.real)‖ ≤
        |Binary64.real c - μ| * ‖a₀.real‖ +
          3 * (‖a₁.real‖ + |Binary64.real c| * ‖a₀.real‖) / 2 ^ 53 + 5 * underflow := by
  have hη := underflow_nonneg
  have hη₁ := underflow_le_one
  have hP : |Binary64.real c| * ‖a₀.real‖ ≤ 2 ^ 120 := by
    calc _ ≤ 2 ^ 60 * 2 ^ 60 := mul_le_mul hC hA₀ (norm_nonneg _) (by positivity)
      _ = 2 ^ 120 := by rw [← pow_add]
  have hP₀ : 0 ≤ |Binary64.real c| * ‖a₀.real‖ := by positivity
  obtain ⟨hsf, hs, hS⟩ := norm_scale_le hc ha₀ hP
  have hD : ‖a₁.real - (a₀.scale c).real‖ ≤ 2 ^ 1023 := by
    calc ‖a₁.real - (a₀.scale c).real‖ ≤ ‖a₁.real‖ + ‖(a₀.scale c).real‖ := norm_sub_le _ _
      _ ≤ 2 ^ 122 := by linarith
      _ ≤ 2 ^ 1023 := pow_le_pow_right₀ (by norm_num) (by norm_num)
  obtain ⟨hof, ho⟩ := rounds_sub ha₁ (hzf hsf) (by rw [hz]; exact hD)
  rw [hz] at ho
  refine ⟨hof, ?_⟩
  have hsplit : (a₁.sub z).real - (a₁.real - μ • a₀.real) =
      ((a₁.sub z).real - (a₁.real - (a₀.scale c).real)) -
        ((a₀.scale c).real - Binary64.real c • a₀.real) - (Binary64.real c - μ) • a₀.real := by
    module
  have hZ : ‖(Binary64.real c - μ) • a₀.real‖ = |Binary64.real c - μ| * ‖a₀.real‖ := by
    rw [norm_smul, Real.norm_eq_abs]
  have hD' := norm_sub_le a₁.real (a₀.scale c).real
  rw [hsplit]
  calc _ ≤ ‖(a₁.sub z).real - (a₁.real - (a₀.scale c).real)‖ +
        ‖(a₀.scale c).real - Binary64.real c • a₀.real‖ +
          ‖(Binary64.real c - μ) • a₀.real‖ :=
        (norm_sub_le _ _).trans (add_le_add_left (norm_sub_le _ _) _)
    _ ≤ _ := by
      have h₁ : ‖a₁.real - (a₀.scale c).real‖ / 2 ^ 53 ≤
          (‖a₁.real‖ + 2 * (|Binary64.real c| * ‖a₀.real‖)) / 2 ^ 53 + underflow := by
        have : ‖a₁.real - (a₀.scale c).real‖ ≤
            ‖a₁.real‖ + 2 * (|Binary64.real c| * ‖a₀.real‖) + 2 * underflow := by
          have : |Binary64.real c| * ‖a₀.real‖ / 2 ^ 53 ≤ |Binary64.real c| * ‖a₀.real‖ := by
            apply div_le_self hP₀ (one_le_pow₀ (by norm_num))
          linarith
        have h2 : 2 * underflow / 2 ^ 53 ≤ underflow := by
          rw [div_le_iff₀ (by positivity)]
          nlinarith [(one_le_pow₀ (by norm_num) : (1 : ℝ) ≤ 2 ^ 53)]
        calc _ ≤ (‖a₁.real‖ + 2 * (|Binary64.real c| * ‖a₀.real‖) + 2 * underflow) / 2 ^ 53 :=
              div_le_div_of_nonneg_right this (by positivity)
          _ = (‖a₁.real‖ + 2 * (|Binary64.real c| * ‖a₀.real‖)) / 2 ^ 53 +
                2 * underflow / 2 ^ 53 := by ring
          _ ≤ _ := by linarith
      rw [hZ]
      linarith [norm_nonneg a₁.real]

theorem norm_sub_scale_sub_le {a₀ a₁ : Vec3 Float} {c : Float} (μ : ℝ) (ha₀ : a₀.IsFinite)
    (ha₁ : a₁.IsFinite) (hc : c.isFinite = true) (hA₀ : ‖a₀.real‖ ≤ 2 ^ 60)
    (hA₁ : ‖a₁.real‖ ≤ 2 ^ 60) (hC : |Binary64.real c| ≤ 2 ^ 60) :
    (a₁.sub (a₀.scale c)).IsFinite ∧
      ‖(a₁.sub (a₀.scale c)).real - (a₁.real - μ • a₀.real)‖ ≤
        |Binary64.real c - μ| * ‖a₀.real‖ +
          3 * (‖a₁.real‖ + |Binary64.real c| * ‖a₀.real‖) / 2 ^ 53 + 5 * underflow :=
  norm_sub_sub_le_of_real_eq μ rfl id ha₀ ha₁ hc hA₀ hA₁ hC

theorem norm_sub_zero_add_scale_sub_le {a₀ a₁ : Vec3 Float} {c : Float} (μ : ℝ)
    (ha₀ : a₀.IsFinite) (ha₁ : a₁.IsFinite) (hc : c.isFinite = true) (hA₀ : ‖a₀.real‖ ≤ 2 ^ 60)
    (hA₁ : ‖a₁.real‖ ≤ 2 ^ 60) (hC : |Binary64.real c| ≤ 2 ^ 60) :
    (a₁.sub (zero.add (a₀.scale c))).IsFinite ∧
      ‖(a₁.sub (zero.add (a₀.scale c))).real - (a₁.real - μ • a₀.real)‖ ≤
        |Binary64.real c - μ| * ‖a₀.real‖ +
          3 * (‖a₁.real‖ + |Binary64.real c| * ‖a₀.real‖) / 2 ^ 53 + 5 * underflow :=
  norm_sub_sub_le_of_real_eq μ (zero_add_real _).1 (zero_add_real _).2 ha₀ ha₁ hc hA₀ hA₁ hC

/-- The triangle inequality for a chain of seven differences. -/
theorem norm_sub_chain_le (x₁ x₂ x₃ x₄ x₅ x₆ x₇ : EuclideanSpace ℝ (Fin 3)) :
    ‖x₁ - x₂ - x₃ - x₄ - x₅ - x₆ - x₇‖ ≤ ‖x₁‖ + ‖x₂‖ + ‖x₃‖ + ‖x₄‖ + ‖x₅‖ + ‖x₆‖ + ‖x₇‖ := by
  refine (norm_sub_le _ _).trans (add_le_add_left ?_ _)
  refine (norm_sub_le _ _).trans (add_le_add_left ?_ _)
  refine (norm_sub_le _ _).trans (add_le_add_left ?_ _)
  refine (norm_sub_le _ _).trans (add_le_add_left ?_ _)
  refine (norm_sub_le _ _).trans (add_le_add_left ?_ _)
  exact norm_sub_le _ _

/-- The residual `a₂ - c₀ a₀ - c₁ o₁` computed in binary64, with `o₁` standing for `y₁`, is within
the coefficients' errors, the error of `o₁` and four roundings of `a₂ - μ₀ a₀ - μ₁ y₁`. -/
theorem norm_sub_scale_add_scale_sub_le {a₀ o₁ a₂ : Vec3 Float} {c₀ c₁ : Float} (μ₀ μ₁ : ℝ)
    (y₁ : EuclideanSpace ℝ (Fin 3)) (ha₀ : a₀.IsFinite) (ho₁ : o₁.IsFinite) (ha₂ : a₂.IsFinite)
    (hc₀ : c₀.isFinite = true) (hc₁ : c₁.isFinite = true) (hA₀ : ‖a₀.real‖ ≤ 2 ^ 60)
    (hO₁ : ‖o₁.real‖ ≤ 2 ^ 60) (hA₂ : ‖a₂.real‖ ≤ 2 ^ 60) (hC₀ : |Binary64.real c₀| ≤ 2 ^ 60)
    (hC₁ : |Binary64.real c₁| ≤ 2 ^ 60) :
    (a₂.sub ((zero.add (a₀.scale c₀)).add (o₁.scale c₁))).IsFinite ∧
      ‖(a₂.sub ((zero.add (a₀.scale c₀)).add (o₁.scale c₁))).real -
          (a₂.real - μ₀ • a₀.real - μ₁ • y₁)‖ ≤
        |Binary64.real c₀ - μ₀| * ‖a₀.real‖ + |Binary64.real c₁ - μ₁| * ‖o₁.real‖ +
          |μ₁| * ‖o₁.real - y₁‖ +
          4 * (‖a₂.real‖ + |Binary64.real c₀| * ‖a₀.real‖ + |Binary64.real c₁| * ‖o₁.real‖) /
            2 ^ 53 + 10 * underflow := by
  have hη := underflow_nonneg
  have hη₁ := underflow_le_one
  have hP₀ : |Binary64.real c₀| * ‖a₀.real‖ ≤ 2 ^ 120 := by
    calc _ ≤ 2 ^ 60 * 2 ^ 60 := mul_le_mul hC₀ hA₀ (norm_nonneg _) (by positivity)
      _ = 2 ^ 120 := by rw [← pow_add]
  have hP₁ : |Binary64.real c₁| * ‖o₁.real‖ ≤ 2 ^ 120 := by
    calc _ ≤ 2 ^ 60 * 2 ^ 60 := mul_le_mul hC₁ hO₁ (norm_nonneg _) (by positivity)
      _ = 2 ^ 120 := by rw [← pow_add]
  have hP₀' : 0 ≤ |Binary64.real c₀| * ‖a₀.real‖ := by positivity
  have hP₁' : 0 ≤ |Binary64.real c₁| * ‖o₁.real‖ := by positivity
  obtain ⟨hs₀f, hs₀, hS₀⟩ := norm_scale_le hc₀ ha₀ hP₀
  obtain ⟨hs₁f, hs₁, hS₁⟩ := norm_scale_le hc₁ ho₁ hP₁
  obtain ⟨hz, hzf⟩ := zero_add_real (a₀.scale c₀)
  set S₀ := (a₀.scale c₀).real with hS₀def
  set S₁ := (o₁.scale c₁).real with hS₁def
  have hQ := norm_add_le S₀ S₁
  have hsmall : ∀ x : ℝ, 0 ≤ x → x / 2 ^ 53 ≤ x := fun x hx => div_le_self hx (by norm_num)
  have hQ' : ‖S₀ + S₁‖ ≤ 2 ^ 1023 := by
    calc ‖S₀ + S₁‖ ≤ 2 ^ 122 := by linarith [hsmall _ hP₀', hsmall _ hP₁']
      _ ≤ 2 ^ 1023 := pow_le_pow_right₀ (by norm_num) (by norm_num)
  obtain ⟨htf, ht⟩ := rounds_add (hzf hs₀f) hs₁f (by rw [hz]; exact hQ')
  rw [hz] at ht
  set T := ((zero.add (a₀.scale c₀)).add (o₁.scale c₁)).real with hTdef
  have hT : ‖T‖ ≤ ‖S₀ + S₁‖ + (‖S₀ + S₁‖ / 2 ^ 53 + 2 * underflow) := by
    have := norm_le_insert' T (S₀ + S₁)
    linarith
  have hAT := norm_sub_le a₂.real T
  have hAT' : ‖a₂.real - T‖ ≤ 2 ^ 1023 := by
    calc ‖a₂.real - T‖ ≤ 2 ^ 124 := by
          linarith [hsmall _ hP₀', hsmall _ hP₁', hsmall _ (norm_nonneg (S₀ + S₁))]
      _ ≤ 2 ^ 1023 := pow_le_pow_right₀ (by norm_num) (by norm_num)
  obtain ⟨hof, ho⟩ := rounds_sub ha₂ htf hAT'
  refine ⟨hof, ?_⟩
  set O := (a₂.sub ((zero.add (a₀.scale c₀)).add (o₁.scale c₁))).real with hOdef
  have hsplit : O - (a₂.real - μ₀ • a₀.real - μ₁ • y₁) =
      (O - (a₂.real - T)) - (T - (S₀ + S₁)) - (S₀ - Binary64.real c₀ • a₀.real) -
        (S₁ - Binary64.real c₁ • o₁.real) - (Binary64.real c₀ - μ₀) • a₀.real -
        (Binary64.real c₁ - μ₁) • o₁.real - μ₁ • (o₁.real - y₁) := by
    module
  rw [hsplit]
  refine (norm_sub_chain_le _ _ _ _ _ _ _).trans ?_
  simp only [norm_smul, Real.norm_eq_abs]
  have hu : ∀ x : ℝ, 0 ≤ x → x / 2 ^ 53 / 2 ^ 53 ≤ x / 2 ^ 53 :=
    fun x hx => hsmall _ (by positivity)
  have hηu : 2 * underflow / 2 ^ 53 ≤ underflow := by
    rw [div_le_iff₀ (by positivity)]
    nlinarith
  have hAT53 : ‖a₂.real - T‖ / 2 ^ 53 ≤ (‖a₂.real‖ + ‖T‖) / 2 ^ 53 :=
    div_le_div_of_nonneg_right hAT (by positivity)
  have hT53 : ‖T‖ / 2 ^ 53 ≤
      (‖S₀ + S₁‖ + ‖S₀ + S₁‖ / 2 ^ 53) / 2 ^ 53 + 2 * underflow / 2 ^ 53 := by
    rw [← add_div]
    exact div_le_div_of_nonneg_right (by linarith) (by positivity)
  have hQ53 : ‖S₀ + S₁‖ / 2 ^ 53 ≤
      (|Binary64.real c₀| * ‖a₀.real‖ + |Binary64.real c₁| * ‖o₁.real‖) / 2 ^ 53 +
        ((|Binary64.real c₀| * ‖a₀.real‖ + |Binary64.real c₁| * ‖o₁.real‖) / 2 ^ 53 / 2 ^ 53 +
          4 * underflow / 2 ^ 53) := by
    rw [← add_div, ← add_div]
    refine div_le_div_of_nonneg_right ?_ (by positivity)
    linarith
  have hP53 := hu _ (add_nonneg hP₀' hP₁')
  have hη53 : 4 * underflow / 2 ^ 53 ≤ 2 * underflow := by linarith
  have hQQ : ‖S₀ + S₁‖ / 2 ^ 53 / 2 ^ 53 ≤ ‖S₀ + S₁‖ / 2 ^ 53 := hu _ (norm_nonneg _)
  linarith [norm_nonneg a₂.real]

end Vec3

namespace Mat3

/-- The exact orthogonal vectors of the rows' values. -/
noncomputable def exactOrtho (m : Mat3 Float) : Fin 3 → EuclideanSpace ℝ (Fin 3)
  | 0 => (m.row 0).real
  | 1 => ortho₁ (m.row 0).real (m.row 1).real
  | 2 => ortho₂ (m.row 0).real (m.row 1).real (m.row 2).real

/-- The exact coefficient of row `i` along orthogonal vector `j`. -/
noncomputable def exactCoeff (m : Mat3 Float) (i j : Fin 3) : ℝ :=
  coeff (m.row i).real (m.exactOrtho j)

/-- Rows of finite floats no longer than five times any exact orthogonal vector, with all these
lengths in `[2⁻⁵⁵, 2⁵⁵]`. -/
structure Balanced (m : Mat3 Float) : Prop where
  finite : ∀ i, (m.row i).IsFinite
  row_le : ∀ i j, ‖(m.row i).real‖ ≤ 5 * ‖m.exactOrtho j‖
  ortho_ge : ∀ j, 1 / 2 ^ 55 ≤ ‖m.exactOrtho j‖
  row_le_top : ∀ i, ‖(m.row i).real‖ ≤ 2 ^ 55

namespace Balanced

variable {m : Mat3 Float} (hb : m.Balanced)
include hb

theorem ortho_pos (j : Fin 3) : 0 < ‖m.exactOrtho j‖ :=
  lt_of_lt_of_le (by positivity) (hb.ortho_ge j)

theorem ortho_le_row (j : Fin 3) : ‖m.exactOrtho j‖ ≤ ‖(m.row j).real‖ := by
  have h₀ : (m.row 0).real ≠ 0 := norm_pos_iff.mp (hb.ortho_pos 0)
  fin_cases j
  · exact le_rfl
  · exact norm_ortho₁_le _ _
  · exact norm_ortho₂_le h₀

theorem row_ge (i : Fin 3) : 1 / 2 ^ 55 ≤ ‖(m.row i).real‖ :=
  (hb.ortho_ge i).trans (hb.ortho_le_row i)

theorem ortho_le_top (j : Fin 3) : ‖m.exactOrtho j‖ ≤ 2 ^ 55 :=
  (hb.ortho_le_row j).trans (hb.row_le_top j)

theorem row_mem (i : Fin 3) : 1 / 2 ^ 60 ≤ ‖(m.row i).real‖ ∧ ‖(m.row i).real‖ ≤ 2 ^ 60 :=
  ⟨le_trans (one_div_le_one_div_of_le (by positivity)
      (pow_le_pow_right₀ (by norm_num) (by norm_num))) (hb.row_ge i),
    (hb.row_le_top i).trans (pow_le_pow_right₀ (by norm_num) (by norm_num))⟩

theorem ortho_mem (j : Fin 3) : 1 / 2 ^ 60 ≤ ‖m.exactOrtho j‖ ∧ ‖m.exactOrtho j‖ ≤ 2 ^ 60 :=
  ⟨le_trans (one_div_le_one_div_of_le (by positivity)
      (pow_le_pow_right₀ (by norm_num) (by norm_num))) (hb.ortho_ge j),
    (hb.ortho_le_top j).trans (pow_le_pow_right₀ (by norm_num) (by norm_num))⟩

theorem abs_exactCoeff_le (i j : Fin 3) : |m.exactCoeff i j| ≤ 5 := by
  refine (abs_coeff_le _ _).trans ?_
  rw [div_le_iff₀ (hb.ortho_pos j)]
  exact hb.row_le i j

/-- Against the exact orthogonal vectors the underflow is far below one rounding. -/
theorem underflow_le (j : Fin 3) :
    underflow ≤ ‖m.exactOrtho j‖ / 2 ^ 53 / 2 ^ 100 ∧
      underflow ≤ ‖m.exactOrtho j‖ ^ 2 / 2 ^ 53 / 2 ^ 100 := by
  have h55 : (1 : ℝ) / 2 ^ 200 ≤ 1 / 2 ^ 55 :=
    one_div_le_one_div_of_le (by positivity) (pow_le_pow_right₀ (by norm_num) (by norm_num))
  have hsq : (1 : ℝ) / 2 ^ 200 ≤ ‖m.exactOrtho j‖ ^ 2 := by
    calc (1 : ℝ) / 2 ^ 200 ≤ 1 / 2 ^ 55 * (1 / 2 ^ 55) := by
          rw [div_mul_div_comm, one_mul, ← pow_add]
          exact one_div_le_one_div_of_le (by positivity)
            (pow_le_pow_right₀ (by norm_num) (by norm_num))
      _ ≤ ‖m.exactOrtho j‖ * ‖m.exactOrtho j‖ := by
          gcongr <;> exact hb.ortho_ge j
      _ = ‖m.exactOrtho j‖ ^ 2 := by ring
  exact ⟨underflow_le_of_le (h55.trans (hb.ortho_ge j)), underflow_le_of_le hsq⟩

end Balanced

/-- Rows of finite floats at most twice as long as every exact orthogonal vector, with all these
lengths in `[2⁻⁵⁰, 2⁵⁰]`. -/
structure WellConditioned (m : Mat3 Float) : Prop where
  finite : ∀ i, (m.row i).IsFinite
  row_le : ∀ i j, ‖(m.row i).real‖ ≤ 2 * ‖m.exactOrtho j‖
  ortho_ge : ∀ j, 1 / 2 ^ 50 ≤ ‖m.exactOrtho j‖
  row_le_top : ∀ i, ‖(m.row i).real‖ ≤ 2 ^ 50

namespace WellConditioned

variable {m : Mat3 Float} (hc : m.WellConditioned)
include hc

theorem balanced : m.Balanced where
  finite := hc.finite
  row_le i j := (hc.row_le i j).trans (by linarith [norm_nonneg (m.exactOrtho j)])
  ortho_ge j := le_trans (one_div_le_one_div_of_le (by positivity)
    (pow_le_pow_right₀ (by norm_num) (by norm_num))) (hc.ortho_ge j)
  row_le_top i := (hc.row_le_top i).trans (pow_le_pow_right₀ (by norm_num) (by norm_num))

theorem ortho_le (i j : Fin 3) : ‖m.exactOrtho i‖ ≤ 2 * ‖m.exactOrtho j‖ :=
  (hc.balanced.ortho_le_row i).trans (hc.row_le i j)

theorem abs_exactCoeff_le (i j : Fin 3) : |m.exactCoeff i j| ≤ 2 := by
  refine (abs_coeff_le _ _).trans ?_
  rw [div_le_iff₀ (hc.balanced.ortho_pos j)]
  exact hc.row_le i j

end WellConditioned

end Mat3

namespace Reduction.GramSchmidt

/-- The binary64 orthogonalisation written out row by row. -/
structure Unrolled (basis : Mat3 Float) (g : GramSchmidt Float) : Prop where
  ortho₀ : g.ortho.row 0 = basis.row 0
  normSq₀ : g.normSq.get 0 = (basis.row 0).normSq
  coeff₁₀ : g.coeff.get 1 0 = (basis.row 1).dot (basis.row 0) / g.normSq.get 0
  ortho₁ : g.ortho.row 1 = (basis.row 1).sub (Vec3.zero.add ((basis.row 0).scale (g.coeff.get 1 0)))
  normSq₁ : g.normSq.get 1 = (g.ortho.row 1).normSq
  coeff₂₀ : g.coeff.get 2 0 = (basis.row 2).dot (basis.row 0) / g.normSq.get 0
  coeff₂₁ : g.coeff.get 2 1 = (basis.row 2).dot (g.ortho.row 1) / g.normSq.get 1
  ortho₂ : g.ortho.row 2 = (basis.row 2).sub ((Vec3.zero.add ((basis.row 0).scale
    (g.coeff.get 2 0))).add ((g.ortho.row 1).scale (g.coeff.get 2 1)))
  normSq₂ : g.normSq.get 2 = (g.ortho.row 2).normSq

variable {basis : Mat3 Float} {g : GramSchmidt Float}

theorem Recurrent.unrolled (h : Recurrent basis g 3) : Unrolled basis g := by
  have h₀ := h 0 (by decide)
  have h₁ := h 1 (by decide)
  have h₂ := h 2 (by decide)
  have ho₀ : g.ortho.row 0 = basis.row 0 := h₀.ortho_row.trans (Vec3.sub_zero_eq _)
  refine ⟨ho₀, by rw [h₀.normSq_get, ho₀], ?_, ?_, h₁.normSq_get, ?_, ?_, ?_, h₂.normSq_get⟩
  · rw [Mat3.get_def, h₁.coeff_row, ← ho₀]
    rfl
  · rw [h₁.ortho_row, ← ho₀]
    rfl
  · rw [Mat3.get_def, h₂.coeff_row, ← ho₀]
    rfl
  · rw [Mat3.get_def, h₂.coeff_row]
    rfl
  · rw [h₂.ortho_row, ← ho₀]
    rfl

/-- A computed coefficient near an exact one of size at most five is at most six. -/
theorem abs_le_six {c : Float} {μ ε : ℝ} (hc : |Binary64.real c - μ| ≤ ε) (hμ : |μ| ≤ 5)
    (hε : ε ≤ 1) : |Binary64.real c| ≤ 6 := by
  have := abs_sub_abs_le_abs_sub (Binary64.real c) μ
  linarith

namespace Unrolled

variable (hu : Unrolled basis g) (hb : basis.Balanced)
include hu hb

theorem normSq₀_near : (g.normSq.get 0).isFinite = true ∧
    |Binary64.real (g.normSq.get 0) - ‖basis.exactOrtho 0‖ ^ 2| ≤
      7 / 2 ^ 53 * ‖basis.exactOrtho 0‖ ^ 2 := by
  rw [hu.normSq₀]
  obtain ⟨hf, h⟩ := Vec3.abs_normSq_sub_le (o := basis.row 0) (y := basis.exactOrtho 0)
    (hb.finite 0) le_rfl (by norm_num) (by simp [Mat3.exactOrtho]) (hb.ortho_mem 0).2
  refine ⟨hf, ?_⟩
  have hη := (hb.underflow_le 0).2
  nlinarith [sq_nonneg ‖basis.exactOrtho 0‖]

/-- A coefficient against the first row, computed from the binary64 squared length. -/
theorem coeff_near_of_row₀ (i : Fin 3) :
    ((basis.row i).dot (basis.row 0) / g.normSq.get 0).isFinite = true ∧
      |Binary64.real ((basis.row i).dot (basis.row 0) / g.normSq.get 0) -
        basis.exactCoeff i 0| ≤ 110 / 2 ^ 53 := by
  obtain ⟨hmf, hm⟩ := hu.normSq₀_near hb
  obtain ⟨hf, h⟩ := Vec3.abs_dot_div_sub_coeff_le (a := basis.row i) (o := basis.row 0)
    (y := basis.exactOrtho 0) (ρ := 0) (σ := 7 / 2 ^ 53) (hb.finite i) (hb.finite 0) hmf le_rfl
    (by norm_num) (by positivity) (by norm_num) (by simp [Mat3.exactOrtho]) hm
    (hb.row_mem i).1 (hb.row_mem i).2 (hb.ortho_mem 0).1 (hb.ortho_mem 0).2
  refine ⟨hf, h.trans ?_⟩
  have hratio : ‖(basis.row i).real‖ / ‖basis.exactOrtho 0‖ ≤ 5 := by
    rw [div_le_iff₀ (hb.ortho_pos 0)]
    exact hb.row_le i 0
  calc ‖(basis.row i).real‖ / ‖basis.exactOrtho 0‖ * (8 / 2 ^ 53 + 2 * 0 + 2 * (7 / 2 ^ 53))
      ≤ 5 * (8 / 2 ^ 53 + 2 * 0 + 2 * (7 / 2 ^ 53)) := by gcongr
    _ = 110 / 2 ^ 53 := by ring

theorem coeff₁₀_near : (g.coeff.get 1 0).isFinite = true ∧
    |Binary64.real (g.coeff.get 1 0) - basis.exactCoeff 1 0| ≤ 110 / 2 ^ 53 := by
  rw [hu.coeff₁₀]
  exact hu.coeff_near_of_row₀ hb 1

theorem coeff₂₀_near : (g.coeff.get 2 0).isFinite = true ∧
    |Binary64.real (g.coeff.get 2 0) - basis.exactCoeff 2 0| ≤ 110 / 2 ^ 53 := by
  rw [hu.coeff₂₀]
  exact hu.coeff_near_of_row₀ hb 2

theorem ortho₁_near : (g.ortho.row 1).IsFinite ∧
    ‖(g.ortho.row 1).real - basis.exactOrtho 1‖ ≤ 660 / 2 ^ 53 * ‖basis.exactOrtho 1‖ := by
  obtain ⟨hcf, hc⟩ := hu.coeff₁₀_near hb
  have hC := abs_le_six hc (hb.abs_exactCoeff_le 1 0) (by norm_num)
  rw [hu.ortho₁]
  obtain ⟨hf, h⟩ := Vec3.norm_sub_zero_add_scale_sub_le (basis.exactCoeff 1 0) (hb.finite 0)
    (hb.finite 1) hcf (hb.row_mem 0).2 (hb.row_mem 1).2 (hC.trans (by norm_num))
  refine ⟨hf, h.trans ?_⟩
  have hA₀ := hb.row_le 0 1
  have hA₁ := hb.row_le 1 1
  have hη := (hb.underflow_le 1).1
  have h₁ : |Binary64.real (g.coeff.get 1 0) - basis.exactCoeff 1 0| * ‖(basis.row 0).real‖ ≤
      110 / 2 ^ 53 * (5 * ‖basis.exactOrtho 1‖) := mul_le_mul hc hA₀ (norm_nonneg _) (by positivity)
  have h₂ : |Binary64.real (g.coeff.get 1 0)| * ‖(basis.row 0).real‖ ≤
      6 * (5 * ‖basis.exactOrtho 1‖) := mul_le_mul hC hA₀ (norm_nonneg _) (by norm_num)
  have hy := norm_nonneg (basis.exactOrtho 1)
  linarith

theorem normSq₁_near : (g.normSq.get 1).isFinite = true ∧
    |Binary64.real (g.normSq.get 1) - ‖basis.exactOrtho 1‖ ^ 2| ≤
      1990 / 2 ^ 53 * ‖basis.exactOrtho 1‖ ^ 2 := by
  obtain ⟨hof, ho⟩ := hu.ortho₁_near hb
  rw [hu.normSq₁]
  obtain ⟨hf, h⟩ := Vec3.abs_normSq_sub_le hof (by positivity) (by norm_num) ho
    (hb.ortho_mem 1).2
  refine ⟨hf, ?_⟩
  have hη := (hb.underflow_le 1).2
  nlinarith [sq_nonneg ‖basis.exactOrtho 1‖]

theorem coeff₂₁_near : (g.coeff.get 2 1).isFinite = true ∧
    |Binary64.real (g.coeff.get 2 1) - basis.exactCoeff 2 1| ≤ 26540 / 2 ^ 53 := by
  obtain ⟨hof, ho⟩ := hu.ortho₁_near hb
  obtain ⟨hmf, hm⟩ := hu.normSq₁_near hb
  rw [hu.coeff₂₁]
  obtain ⟨hf, h⟩ := Vec3.abs_dot_div_sub_coeff_le (a := basis.row 2) (o := g.ortho.row 1)
    (y := basis.exactOrtho 1) (hb.finite 2) hof hmf (by positivity) (by norm_num) (by positivity)
    (by norm_num) ho hm (hb.row_mem 2).1 (hb.row_mem 2).2 (hb.ortho_mem 1).1 (hb.ortho_mem 1).2
  refine ⟨hf, h.trans ?_⟩
  have hratio : ‖(basis.row 2).real‖ / ‖basis.exactOrtho 1‖ ≤ 5 := by
    rw [div_le_iff₀ (hb.ortho_pos 1)]
    exact hb.row_le 2 1
  calc ‖(basis.row 2).real‖ / ‖basis.exactOrtho 1‖ *
        (8 / 2 ^ 53 + 2 * (660 / 2 ^ 53) + 2 * (1990 / 2 ^ 53))
      ≤ 5 * (8 / 2 ^ 53 + 2 * (660 / 2 ^ 53) + 2 * (1990 / 2 ^ 53)) := by gcongr
    _ = 26540 / 2 ^ 53 := by ring

theorem ortho₂_near : (g.ortho.row 2).IsFinite ∧
    ‖(g.ortho.row 2).real - basis.exactOrtho 2‖ ≤ 140000 / 2 ^ 53 * ‖basis.exactOrtho 2‖ := by
  obtain ⟨hof, ho⟩ := hu.ortho₁_near hb
  obtain ⟨hc₀f, hc₀⟩ := hu.coeff₂₀_near hb
  obtain ⟨hc₁f, hc₁⟩ := hu.coeff₂₁_near hb
  have hC₀ := abs_le_six hc₀ (hb.abs_exactCoeff_le 2 0) (by norm_num)
  have hC₁ := abs_le_six hc₁ (hb.abs_exactCoeff_le 2 1) (by norm_num)
  have hy₁ : ‖basis.exactOrtho 1‖ ≤ 5 * ‖basis.exactOrtho 2‖ :=
    (hb.ortho_le_row 1).trans (hb.row_le 1 2)
  have hO : ‖(g.ortho.row 1).real‖ ≤ (1 + 660 / 2 ^ 53) * (5 * ‖basis.exactOrtho 2‖) := by
    have := norm_le_insert' (g.ortho.row 1).real (basis.exactOrtho 1)
    nlinarith [norm_nonneg (basis.exactOrtho 1)]
  have hO' : ‖(g.ortho.row 1).real‖ ≤ 2 ^ 60 := by
    have := norm_le_insert' (g.ortho.row 1).real (basis.exactOrtho 1)
    have h55 := hb.ortho_le_top 1
    calc ‖(g.ortho.row 1).real‖ ≤ 2 * 2 ^ 55 := by nlinarith [norm_nonneg (basis.exactOrtho 1)]
      _ ≤ 2 ^ 60 := by norm_num
  rw [hu.ortho₂]
  obtain ⟨hf, h⟩ := Vec3.norm_sub_scale_add_scale_sub_le (basis.exactCoeff 2 0)
    (basis.exactCoeff 2 1) (basis.exactOrtho 1) (hb.finite 0) hof (hb.finite 2) hc₀f hc₁f
    (hb.row_mem 0).2 hO' (hb.row_mem 2).2 (hC₀.trans (by norm_num)) (hC₁.trans (by norm_num))
  refine ⟨hf, h.trans ?_⟩
  have hA₀ := hb.row_le 0 2
  have hA₂ := hb.row_le 2 2
  have hη := (hb.underflow_le 2).1
  have hy := norm_nonneg (basis.exactOrtho 2)
  -- the exact coefficient along `y₁` times `‖y₁‖` is at most `‖a₂‖`
  have hμy : |basis.exactCoeff 2 1| * ‖basis.exactOrtho 1‖ ≤ ‖(basis.row 2).real‖ :=
    (le_div_iff₀ (hb.ortho_pos 1)).mp (abs_coeff_le _ _)
  have h₁ : |Binary64.real (g.coeff.get 2 0) - basis.exactCoeff 2 0| * ‖(basis.row 0).real‖ ≤
      110 / 2 ^ 53 * (5 * ‖basis.exactOrtho 2‖) :=
    mul_le_mul hc₀ hA₀ (norm_nonneg _) (by positivity)
  have h₂ : |Binary64.real (g.coeff.get 2 1) - basis.exactCoeff 2 1| * ‖(g.ortho.row 1).real‖ ≤
      26540 / 2 ^ 53 * ((1 + 660 / 2 ^ 53) * (5 * ‖basis.exactOrtho 2‖)) :=
    mul_le_mul hc₁ hO (norm_nonneg _) (by positivity)
  have h₃ : |basis.exactCoeff 2 1| * ‖(g.ortho.row 1).real - basis.exactOrtho 1‖ ≤
      660 / 2 ^ 53 * (5 * ‖basis.exactOrtho 2‖) := by
    calc _ ≤ |basis.exactCoeff 2 1| * (660 / 2 ^ 53 * ‖basis.exactOrtho 1‖) :=
          mul_le_mul_of_nonneg_left ho (abs_nonneg _)
      _ = 660 / 2 ^ 53 * (|basis.exactCoeff 2 1| * ‖basis.exactOrtho 1‖) := by ring
      _ ≤ 660 / 2 ^ 53 * (5 * ‖basis.exactOrtho 2‖) :=
          mul_le_mul_of_nonneg_left (hμy.trans hA₂) (by positivity)
  have h₄ : |Binary64.real (g.coeff.get 2 0)| * ‖(basis.row 0).real‖ ≤
      6 * (5 * ‖basis.exactOrtho 2‖) := mul_le_mul hC₀ hA₀ (norm_nonneg _) (by norm_num)
  have h₅ : |Binary64.real (g.coeff.get 2 1)| * ‖(g.ortho.row 1).real‖ ≤
      6 * ((1 + 660 / 2 ^ 53) * (5 * ‖basis.exactOrtho 2‖)) :=
    mul_le_mul hC₁ hO (norm_nonneg _) (by norm_num)
  linarith

theorem normSq₂_near : (g.normSq.get 2).isFinite = true ∧
    |Binary64.real (g.normSq.get 2) - ‖basis.exactOrtho 2‖ ^ 2| ≤
      420010 / 2 ^ 53 * ‖basis.exactOrtho 2‖ ^ 2 := by
  obtain ⟨hof, ho⟩ := hu.ortho₂_near hb
  rw [hu.normSq₂]
  obtain ⟨hf, h⟩ := Vec3.abs_normSq_sub_le hof (by positivity) (by norm_num) ho
    (hb.ortho_mem 2).2
  refine ⟨hf, ?_⟩
  have hη := (hb.underflow_le 2).2
  nlinarith [sq_nonneg ‖basis.exactOrtho 2‖]

end Unrolled

/-- Every squared length the binary64 orthogonalisation records is finite and within a factor
`2⁻³⁴` of the exact one, and every coefficient below the diagonal is finite and within `2⁻³⁸`
of the exact one. -/
structure NearExact (basis : Mat3 Float) (g : GramSchmidt Float) : Prop where
  normSq_finite : ∀ j, (g.normSq.get j).isFinite = true
  normSq_near : ∀ j, |Binary64.real (g.normSq.get j) - ‖basis.exactOrtho j‖ ^ 2| ≤
    ‖basis.exactOrtho j‖ ^ 2 / 2 ^ 34
  coeff_finite : ∀ i j : Fin 3, j < i → (g.coeff.get i j).isFinite = true
  coeff_near : ∀ i j : Fin 3, j < i →
    |Binary64.real (g.coeff.get i j) - basis.exactCoeff i j| ≤ 1 / 2 ^ 38

/-- For a balanced basis the binary64 orthogonalisation, whatever state it was reached from,
stays near the exact one. -/
theorem Recurrent.nearExact (h : Recurrent basis g 3) (hb : basis.Balanced) :
    NearExact basis g := by
  have hu := h.unrolled
  have hn : ∀ (C N x : ℝ), C ≤ 2 ^ 19 → 0 ≤ N → |x| ≤ C / 2 ^ 53 * N → |x| ≤ N / 2 ^ 34 :=
    fun C N x hC hN hx => hx.trans (by
      rw [div_mul_eq_mul_div, div_le_div_iff₀ (by positivity) (by positivity)]
      nlinarith)
  have hc : ∀ (C x : ℝ), C ≤ 2 ^ 15 → |x| ≤ C / 2 ^ 53 → |x| ≤ 1 / 2 ^ 38 :=
    fun C x hC hx => hx.trans (by
      rw [div_le_div_iff₀ (by positivity) (by positivity)]
      nlinarith)
  refine ⟨fun j => ?_, fun j => ?_, fun i j hji => ?_, fun i j hji => ?_⟩
  · fin_cases j
    · exact (hu.normSq₀_near hb).1
    · exact (hu.normSq₁_near hb).1
    · exact (hu.normSq₂_near hb).1
  · fin_cases j
    · exact hn _ _ _ (by norm_num) (sq_nonneg _) (hu.normSq₀_near hb).2
    · exact hn _ _ _ (by norm_num) (sq_nonneg _) (hu.normSq₁_near hb).2
    · exact hn _ _ _ (by norm_num) (sq_nonneg _) (hu.normSq₂_near hb).2
  · fin_cases i <;> fin_cases j <;> simp at hji
    · exact (hu.coeff₁₀_near hb).1
    · exact (hu.coeff₂₀_near hb).1
    · exact (hu.coeff₂₁_near hb).1
  · fin_cases i <;> fin_cases j <;> simp at hji
    · exact hc _ _ (by norm_num) (hu.coeff₁₀_near hb).2
    · exact hc _ _ (by norm_num) (hu.coeff₂₀_near hb).2
    · exact hc _ _ (by norm_num) (hu.coeff₂₁_near hb).2

end Reduction.GramSchmidt

end CrystalLattice
