import Mathlib
import CrystalLattice.Proofs.Binary64Error

/-!
# Vectors of floats as vectors of `ℝ³`

A vector of floats stands for a vector of the Euclidean space `ℝ³`. Its difference, sum and
multiple are within one rounding of the exact ones in norm, and its dot product is within four
roundings of the product of the norms (`Vec3.rounds_dot`).
-/

namespace CrystalLattice

open Binary64
open scoped InnerProductSpace

/-- Three components within `c` times their size plus `d` of a vector are within
`c ‖q‖ + 2 d` of it. -/
theorem norm_sub_le_of_components {p q : EuclideanSpace ℝ (Fin 3)} {c d : ℝ} (hc : 0 ≤ c)
    (hd : 0 ≤ d) (h : ∀ i, |p i - q i| ≤ c * |q i| + d) : ‖p - q‖ ≤ c * ‖q‖ + 2 * d := by
  have hq : ‖q‖ ^ 2 = |q 0| ^ 2 + |q 1| ^ 2 + |q 2| ^ 2 := by
    rw [EuclideanSpace.norm_sq_eq]
    simp [Fin.sum_univ_three, sq_abs]
  have hpq : ‖p - q‖ ^ 2 = |p 0 - q 0| ^ 2 + |p 1 - q 1| ^ 2 + |p 2 - q 2| ^ 2 := by
    rw [EuclideanSpace.norm_sq_eq]
    simp [Fin.sum_univ_three, sq_abs]
  have hsum : |q 0| + |q 1| + |q 2| ≤ 2 * ‖q‖ := by
    have h3 : (|q 0| + |q 1| + |q 2|) ^ 2 ≤ (2 * ‖q‖) ^ 2 := by
      nlinarith [sq_nonneg (|q 0| - |q 1|), sq_nonneg (|q 1| - |q 2|), sq_nonneg (|q 0| - |q 2|)]
    exact le_of_sq_le_sq h3 (by positivity)
  have hsq : ‖p - q‖ ^ 2 ≤ (c * ‖q‖ + 2 * d) ^ 2 := by
    have e : ∀ i, |p i - q i| ^ 2 ≤ (c * |q i| + d) ^ 2 :=
      fun i => pow_le_pow_left₀ (abs_nonneg _) (h i) 2
    have hcd : 0 ≤ c * d := mul_nonneg hc hd
    calc ‖p - q‖ ^ 2 ≤ (c * |q 0| + d) ^ 2 + (c * |q 1| + d) ^ 2 + (c * |q 2| + d) ^ 2 := by
          rw [hpq]
          linarith [e 0, e 1, e 2]
      _ = c ^ 2 * ‖q‖ ^ 2 + 2 * (c * d) * (|q 0| + |q 1| + |q 2|) + 3 * d ^ 2 := by
          rw [hq]
          ring
      _ ≤ c ^ 2 * ‖q‖ ^ 2 + 2 * (c * d) * (2 * ‖q‖) + 4 * d ^ 2 := by
          nlinarith [mul_le_mul_of_nonneg_left hsum hcd, sq_nonneg d]
      _ = (c * ‖q‖ + 2 * d) ^ 2 := by ring
  exact le_of_sq_le_sq hsq (by positivity)

namespace Vec3

/-- The vector of `ℝ³` a vector of floats stands for. -/
def real (v : Vec3 Float) : EuclideanSpace ℝ (Fin 3) :=
  WithLp.toLp _ ![Binary64.real v.x, Binary64.real v.y, Binary64.real v.z]

structure IsFinite (v : Vec3 Float) : Prop where
  x : v.x.isFinite = true
  y : v.y.isFinite = true
  z : v.z.isFinite = true

variable {v w : Vec3 Float}

@[simp] theorem real_apply_zero (v : Vec3 Float) : v.real 0 = Binary64.real v.x := rfl

@[simp] theorem real_apply_one (v : Vec3 Float) : v.real 1 = Binary64.real v.y := rfl

@[simp] theorem real_apply_two (v : Vec3 Float) : v.real 2 = Binary64.real v.z := rfl

theorem inner_real (v w : Vec3 Float) : ⟪v.real, w.real⟫_ℝ =
    Binary64.real v.x * Binary64.real w.x + Binary64.real v.y * Binary64.real w.y +
      Binary64.real v.z * Binary64.real w.z := by
  simp [real, PiLp.inner_apply, Fin.sum_univ_three]
  ring

theorem norm_real_sq (v : Vec3 Float) : ‖v.real‖ ^ 2 =
    Binary64.real v.x ^ 2 + Binary64.real v.y ^ 2 + Binary64.real v.z ^ 2 := by
  rw [EuclideanSpace.norm_sq_eq]
  simp [real, Fin.sum_univ_three]

theorem abs_le_norm_real (v : Vec3 Float) (i : Fin 3) : |v.real i| ≤ ‖v.real‖ := by
  have := PiLp.norm_apply_le (p := 2) v.real i
  rwa [Real.norm_eq_abs] at this

theorem abs_sub_le_norm_real (v w : Vec3 Float) (i : Fin 3) :
    |v.real i - w.real i| ≤ ‖v.real - w.real‖ := by
  have := PiLp.norm_apply_le (p := 2) (v.real - w.real) i
  rwa [Real.norm_eq_abs, PiLp.sub_apply] at this

/-- Three components each within one rounding of a vector are within one rounding of it in
norm, up to twice the underflow. -/
theorem norm_sub_le_of_rounds {p : Vec3 Float} {q : EuclideanSpace ℝ (Fin 3)}
    (h0 : Rounds p.x (q 0)) (h1 : Rounds p.y (q 1)) (h2 : Rounds p.z (q 2)) :
    p.IsFinite ∧ ‖p.real - q‖ ≤ ‖q‖ / 2 ^ 53 + 2 * underflow := by
  refine ⟨⟨h0.isFinite, h1.isFinite, h2.isFinite⟩, ?_⟩
  have h := norm_sub_le_of_components (p := p.real) (q := q) (c := 1 / 2 ^ 53) (d := underflow)
    (by positivity) underflow_nonneg fun i => by
      fin_cases i
      · simpa [div_eq_inv_mul] using h0.abs_sub_le
      · simpa [div_eq_inv_mul] using h1.abs_sub_le
      · simpa [div_eq_inv_mul] using h2.abs_sub_le
  calc ‖p.real - q‖ ≤ 1 / 2 ^ 53 * ‖q‖ + 2 * underflow := h
    _ = ‖q‖ / 2 ^ 53 + 2 * underflow := by ring

theorem rounds_sub (hv : v.IsFinite) (hw : w.IsFinite) (hb : ‖v.real - w.real‖ ≤ 2 ^ 1023) :
    (v.sub w).IsFinite ∧
      ‖(v.sub w).real - (v.real - w.real)‖ ≤ ‖v.real - w.real‖ / 2 ^ 53 + 2 * underflow := by
  have hc : ∀ i, |v.real i - w.real i| ≤ 2 ^ 1023 := fun i => (abs_sub_le_norm_real v w i).trans hb
  exact norm_sub_le_of_rounds (Binary64.rounds_sub hv.x hw.x (hc 0))
    (Binary64.rounds_sub hv.y hw.y (hc 1)) (Binary64.rounds_sub hv.z hw.z (hc 2))

theorem rounds_add (hv : v.IsFinite) (hw : w.IsFinite) (hb : ‖v.real + w.real‖ ≤ 2 ^ 1023) :
    (v.add w).IsFinite ∧
      ‖(v.add w).real - (v.real + w.real)‖ ≤ ‖v.real + w.real‖ / 2 ^ 53 + 2 * underflow := by
  have hc : ∀ i, |v.real i + w.real i| ≤ 2 ^ 1023 := fun i => by
    have := PiLp.norm_apply_le (p := 2) (v.real + w.real) i
    rw [Real.norm_eq_abs, PiLp.add_apply] at this
    exact this.trans hb
  exact norm_sub_le_of_rounds (Binary64.rounds_add hv.x hw.x (hc 0))
    (Binary64.rounds_add hv.y hw.y (hc 1)) (Binary64.rounds_add hv.z hw.z (hc 2))

theorem rounds_scale {c : Float} (hc : c.isFinite = true) (hv : v.IsFinite)
    (hb : |Binary64.real c| * ‖v.real‖ ≤ 2 ^ 1023) :
    (v.scale c).IsFinite ∧
      ‖(v.scale c).real - Binary64.real c • v.real‖ ≤
        |Binary64.real c| * ‖v.real‖ / 2 ^ 53 + 2 * underflow := by
  have hcomp : ∀ i, |Binary64.real c * v.real i| ≤ 2 ^ 1023 := fun i => by
    rw [abs_mul]
    exact (mul_le_mul_of_nonneg_left (abs_le_norm_real v i) (abs_nonneg _)).trans hb
  have h := norm_sub_le_of_rounds (p := v.scale c) (q := Binary64.real c • v.real)
    (rounds_mul hc hv.x (hcomp 0)) (rounds_mul hc hv.y (hcomp 1)) (rounds_mul hc hv.z (hcomp 2))
  rwa [norm_smul, Real.norm_eq_abs] at h

theorem zero_add_real (v : Vec3 Float) :
    (Vec3.zero.add v).real = v.real ∧ (v.IsFinite → (Vec3.zero.add v).IsFinite) := by
  have hx := (zero_add_eqUpToZeroSign v.x).real_eq
  have hy := (zero_add_eqUpToZeroSign v.y).real_eq
  have hz := (zero_add_eqUpToZeroSign v.z).real_eq
  refine ⟨?_, fun h => ⟨hx.2 ▸ h.x, hy.2 ▸ h.y, hz.2 ▸ h.z⟩⟩
  change WithLp.toLp _
    ![Binary64.real (0 + v.x), Binary64.real (0 + v.y), Binary64.real (0 + v.z)] = _
  rw [hx.1, hy.1, hz.1]
  rfl

theorem sub_zero_eq (v : Vec3 Float) : v.sub Vec3.zero = v := by
  change (⟨v.x - 0, v.y - 0, v.z - 0⟩ : Vec3 Float) = v
  rw [Binary64.sub_zero_eq, Binary64.sub_zero_eq, Binary64.sub_zero_eq]

/-- The sum of the sizes of the products of components is at most the product of the norms. -/
theorem sum_abs_mul_le (v w : Vec3 Float) :
    |Binary64.real v.x * Binary64.real w.x| + |Binary64.real v.y * Binary64.real w.y| +
      |Binary64.real v.z * Binary64.real w.z| ≤ ‖v.real‖ * ‖w.real‖ := by
  have hv := norm_real_sq v
  have hw := norm_real_sq w
  simp only [abs_mul]
  refine le_of_sq_le_sq ?_ (by positivity)
  rw [mul_pow, hv, hw]
  nlinarith [sq_nonneg (|Binary64.real v.x| * |Binary64.real w.y| -
      |Binary64.real v.y| * |Binary64.real w.x|),
    sq_nonneg (|Binary64.real v.x| * |Binary64.real w.z| -
      |Binary64.real v.z| * |Binary64.real w.x|),
    sq_nonneg (|Binary64.real v.y| * |Binary64.real w.z| -
      |Binary64.real v.z| * |Binary64.real w.y|),
    sq_abs (Binary64.real v.x), sq_abs (Binary64.real v.y), sq_abs (Binary64.real v.z),
    sq_abs (Binary64.real w.x), sq_abs (Binary64.real w.y), sq_abs (Binary64.real w.z)]

/-- The dot product, summed from the first component to the last, is within four roundings of
the product of the norms of the exact one. -/
theorem rounds_dot (hv : v.IsFinite) (hw : w.IsFinite)
    (hb : ‖v.real‖ * ‖w.real‖ ≤ 2 ^ 1000) :
    (v.dot w).isFinite = true ∧
      |Binary64.real (v.dot w) - ⟪v.real, w.real⟫_ℝ| ≤
        4 * (‖v.real‖ * ‖w.real‖) / 2 ^ 53 + 6 * underflow := by
  rw [show v.dot w = v.x * w.x + v.y * w.y + v.z * w.z from rfl]
  have hT := sum_abs_mul_le v w
  obtain ⟨P, hP, hA⟩ : ∃ P : ℝ, ‖v.real‖ * ‖w.real‖ ≤ P ∧
      ∀ t : ℝ, t ≤ 3 * P + 3 → t ≤ 2 ^ 1023 := by
    refine ⟨2 ^ 1000, hb, fun t ht => ht.trans ?_⟩
    calc (3 : ℝ) * 2 ^ 1000 + 3 ≤ 2 ^ 2 * 2 ^ 1000 := by
          have : (2 : ℝ) ^ 2 ≤ 2 ^ 1000 := pow_le_pow_right₀ (by norm_num) (by norm_num)
          generalize (2 : ℝ) ^ 1000 = X at this ⊢
          norm_num at this ⊢
          linarith
      _ = 2 ^ 1002 := by rw [← pow_add]
      _ ≤ 2 ^ 1023 := pow_le_pow_right₀ (by norm_num) (by norm_num)
  clear hb
  have hη := underflow_nonneg
  have hη' : underflow ≤ 1 / 8 := by
    rw [underflow]
    gcongr
    calc (8 : ℝ) = 2 ^ 3 := by norm_num
      _ ≤ 2 ^ 1075 := pow_le_pow_right₀ (by norm_num) (by norm_num)
  have hT0 : 0 ≤ ‖v.real‖ * ‖w.real‖ := by positivity
  have ha₀ := abs_nonneg (Binary64.real v.x * Binary64.real w.x)
  have ha₁ := abs_nonneg (Binary64.real v.y * Binary64.real w.y)
  have ha₂ := abs_nonneg (Binary64.real v.z * Binary64.real w.z)
  have r₀ := rounds_mul hv.x hw.x (hA _ (by linarith))
  have r₁ := rounds_mul hv.y hw.y (hA _ (by linarith))
  have r₂ := rounds_mul hv.z hw.z (hA _ (by linarith))
  have e₀ := r₀.abs_sub_le
  have e₁ := r₁.abs_sub_le
  have e₂ := r₂.abs_sub_le
  have s₀ := abs_sub_abs_le_abs_sub (Binary64.real (v.x * w.x)) (Binary64.real v.x * Binary64.real w.x)
  have s₁ := abs_sub_abs_le_abs_sub (Binary64.real (v.y * w.y)) (Binary64.real v.y * Binary64.real w.y)
  have s₂ := abs_sub_abs_le_abs_sub (Binary64.real (v.z * w.z)) (Binary64.real v.z * Binary64.real w.z)
  have t₀₁ := abs_add_le (Binary64.real (v.x * w.x)) (Binary64.real (v.y * w.y))
  have r₀₁ := Binary64.rounds_add r₀.isFinite r₁.isFinite (hA _ (by linarith))
  have e₀₁ := r₀₁.abs_sub_le
  have s₀₁ := abs_sub_abs_le_abs_sub (Binary64.real (v.x * w.x + v.y * w.y))
    (Binary64.real (v.x * w.x) + Binary64.real (v.y * w.y))
  have t₀₁₂ := abs_add_le (Binary64.real (v.x * w.x + v.y * w.y)) (Binary64.real (v.z * w.z))
  have r₀₁₂ := Binary64.rounds_add r₀₁.isFinite r₂.isFinite (hA _ (by linarith))
  have e₀₁₂ := r₀₁₂.abs_sub_le
  refine ⟨r₀₁₂.isFinite, ?_⟩
  rw [inner_real]
  -- the error is the sum of the five rounding errors
  have htri := abs_add_three
    (Binary64.real (v.x * w.x + v.y * w.y + v.z * w.z) - (Binary64.real (v.x * w.x + v.y * w.y) + Binary64.real (v.z * w.z)))
    (Binary64.real (v.x * w.x + v.y * w.y) - (Binary64.real (v.x * w.x) + Binary64.real (v.y * w.y)))
    ((Binary64.real (v.x * w.x) - Binary64.real v.x * Binary64.real w.x) +
      (Binary64.real (v.y * w.y) - Binary64.real v.y * Binary64.real w.y) +
      (Binary64.real (v.z * w.z) - Binary64.real v.z * Binary64.real w.z))
  have h3 := abs_add_three (Binary64.real (v.x * w.x) - Binary64.real v.x * Binary64.real w.x)
    (Binary64.real (v.y * w.y) - Binary64.real v.y * Binary64.real w.y)
    (Binary64.real (v.z * w.z) - Binary64.real v.z * Binary64.real w.z)
  have hsum : Binary64.real (v.x * w.x + v.y * w.y + v.z * w.z) -
      (Binary64.real v.x * Binary64.real w.x + Binary64.real v.y * Binary64.real w.y +
        Binary64.real v.z * Binary64.real w.z) =
      (Binary64.real (v.x * w.x + v.y * w.y + v.z * w.z) - (Binary64.real (v.x * w.x + v.y * w.y) + Binary64.real (v.z * w.z))) +
        (Binary64.real (v.x * w.x + v.y * w.y) -
          (Binary64.real (v.x * w.x) + Binary64.real (v.y * w.y))) +
        ((Binary64.real (v.x * w.x) - Binary64.real v.x * Binary64.real w.x) +
          (Binary64.real (v.y * w.y) - Binary64.real v.y * Binary64.real w.y) +
          (Binary64.real (v.z * w.z) - Binary64.real v.z * Binary64.real w.z)) := by ring
  rw [hsum]
  linarith

end Vec3

end CrystalLattice
