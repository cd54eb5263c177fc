import Mathlib.LinearAlgebra.Matrix.Adjugate
import CrystalLattice.Linear.Inverse
import CrystalLattice.Proofs.Exact

/-!
Rational matrices seen as matrices of Mathlib. The product, the determinant, the adjugate and
the elementary row operations of `Mat3 ℚ` are those of `Matrix (Fin 3) (Fin 3) ℚ`, so the
algebra of determinants and adjugates comes from the library: the determinant is
multiplicative, a row operation that adds a multiple of another row keeps it, a swap negates
it, and a matrix times its adjugate is its determinant times the identity. A matrix is
integral when every entry is an integer; integral matrices are closed under products and
adjugates, and the inverse of an integral matrix of determinant `±1` is integral.
-/

namespace CrystalLattice

theorem Vec3.sub_scale_mulMat (v w : Vec3 ℚ) (q : ℚ) (m : Mat3 ℚ) :
    (v.sub (w.scale q)).mulMat m = (v.mulMat m).sub ((w.mulMat m).scale q) := by
  ext <;> simp [Vec3.mulMat] <;> ring

namespace Mat3

/-- The entries of a rational matrix as a matrix of Mathlib. -/
def toMatrix (m : Mat3 ℚ) : Matrix (Fin 3) (Fin 3) ℚ := Matrix.of fun i j => m.get i j

def IsIntegral (m : Mat3 ℚ) : Prop := ∀ i j, ∃ n : ℤ, m.get i j = n

section View

variable {a b m : Mat3 ℚ}

@[simp] theorem toMatrix_apply (m : Mat3 ℚ) (i j : Fin 3) : m.toMatrix i j = m.get i j := rfl

theorem eq_of_get_eq {α : Type} {a b : Mat3 α} (h : ∀ i j, a.get i j = b.get i j) : a = b := by
  refine eq_of_row_eq fun i => Vec3.ext ?_ ?_ ?_
  · exact h i 0
  · exact h i 1
  · exact h i 2

theorem toMatrix_injective : Function.Injective toMatrix :=
  fun _ _ h => eq_of_get_eq fun i j => congrFun (congrFun h i) j

theorem get_mul (a b : Mat3 ℚ) (i j : Fin 3) :
    (a.mul b).get i j = a.get i 0 * b.get 0 j + a.get i 1 * b.get 1 j + a.get i 2 * b.get 2 j := by
  simp only [mul, get_def, row_ofFn, Vec3.get_ofFn, mulEntry, scalar_zero_rat, zero_add]

theorem toMatrix_mul (a b : Mat3 ℚ) : (a.mul b).toMatrix = a.toMatrix * b.toMatrix := by
  ext i j
  simp [get_mul, Matrix.mul_apply, Fin.sum_univ_three]

theorem toMatrix_identity : (identity : Mat3 ℚ).toMatrix = 1 := by
  ext i j
  fin_cases i <;> fin_cases j <;> rfl

theorem det_toMatrix (m : Mat3 ℚ) : m.toMatrix.det = m.det := by
  rw [Matrix.det_fin_three]
  simp only [toMatrix_apply, det]
  ring

theorem toMatrix_adjugate (m : Mat3 ℚ) : m.adjugate.toMatrix = m.toMatrix.adjugate := by
  ext i j
  rw [Matrix.adjugate_fin_three]
  fin_cases i <;> fin_cases j <;> simp [adjugate, get_def] <;> ring

theorem det_mul (a b : Mat3 ℚ) : (a.mul b).det = a.det * b.det := by
  rw [← det_toMatrix, toMatrix_mul, Matrix.det_mul, det_toMatrix, det_toMatrix]

theorem mul_assoc (a b c : Mat3 ℚ) : (a.mul b).mul c = a.mul (b.mul c) := by
  apply toMatrix_injective
  simp only [toMatrix_mul, Matrix.mul_assoc]

theorem identity_mul (m : Mat3 ℚ) : identity.mul m = m := by
  apply toMatrix_injective
  rw [toMatrix_mul, toMatrix_identity, Matrix.one_mul]

theorem det_identity : (identity : Mat3 ℚ).det = 1 := by
  rw [← det_toMatrix, toMatrix_identity, Matrix.det_one]

end View

section RowOperations

variable {α : Type}

theorem get_setRow (m : Mat3 α) (i : Fin 3) (v : Vec3 α) (r c : Fin 3) :
    (m.setRow i v).get r c = if r = i then v.get c else m.get r c := by
  split_ifs with h
  · subst h
    rw [get_def, row_setRow_self]
  · rw [get_def, row_setRow_of_ne _ _ h, ← get_def]

theorem row_mul [Scalar α] (a b : Mat3 α) (r : Fin 3) : (a.mul b).row r = (a.row r).mulMat b := by
  fin_cases r <;> rfl

theorem setRow_mul [Scalar α] (a b : Mat3 α) (i : Fin 3) (v : Vec3 α) :
    (a.setRow i v).mul b = (a.mul b).setRow i (v.mulMat b) := by
  refine eq_of_row_eq fun r => ?_
  by_cases h : r = i
  · subst h
    rw [row_setRow_self, row_mul, row_setRow_self]
  · rw [row_setRow_of_ne _ _ h, row_mul, row_setRow_of_ne _ _ h, row_mul]

theorem swapRows_mul [Scalar α] (a b : Mat3 α) (i j : Fin 3) :
    (a.swapRows i j).mul b = (a.mul b).swapRows i j := by
  simp only [swapRows, setRow_mul, ← row_mul]

theorem toMatrix_setRow (m : Mat3 ℚ) (i : Fin 3) (v : Vec3 ℚ) :
    (m.setRow i v).toMatrix = m.toMatrix.updateRow i v.get := by
  ext r c
  rw [toMatrix_apply, get_setRow, Matrix.updateRow_apply]
  rfl

/-- Subtracting a multiple of another row keeps the determinant. -/
theorem det_setRow_sub_scale (m : Mat3 ℚ) {r i : Fin 3} (h : r ≠ i) (q : ℚ) :
    (m.setRow r ((m.row r).sub ((m.row i).scale q))).det = m.det := by
  have hrow : ((m.row r).sub ((m.row i).scale q)).get =
      m.toMatrix r + (-q) • m.toMatrix i := by
    funext c
    fin_cases c <;> simp [get_def] <;> ring
  rw [← det_toMatrix, toMatrix_setRow, hrow, Matrix.det_updateRow_add_smul_self _ h,
    det_toMatrix]

theorem toMatrix_swapRows (m : Mat3 ℚ) (i j : Fin 3) :
    (m.swapRows i j).toMatrix = m.toMatrix.submatrix (Equiv.swap i j) id := by
  ext r c
  simp only [swapRows, toMatrix_apply, get_setRow, Matrix.submatrix_apply, id, Equiv.swap_apply_def]
  split_ifs <;> subst_vars <;> rfl

theorem det_swapRows (m : Mat3 ℚ) {i j : Fin 3} (h : i ≠ j) : (m.swapRows i j).det = -m.det := by
  rw [← det_toMatrix, toMatrix_swapRows, Matrix.det_permute, Equiv.Perm.sign_swap h, det_toMatrix]
  norm_num

end RowOperations

section Integral

variable {a b m : Mat3 ℚ}

theorem isIntegral_iff_exists_map :
    m.IsIntegral ↔ ∃ N : Matrix (Fin 3) (Fin 3) ℤ, m.toMatrix = N.map (↑) := by
  constructor
  · intro h
    choose N hN using h
    exact ⟨Matrix.of N, by ext i j; simp [hN]⟩
  · rintro ⟨N, hN⟩ i j
    exact ⟨N i j, by simpa using congrFun (congrFun hN i) j⟩

theorem isIntegral_identity : (identity : Mat3 ℚ).IsIntegral := by
  intro i j
  refine ⟨if i = j then 1 else 0, ?_⟩
  fin_cases i <;> fin_cases j <;> rfl

theorem IsIntegral.mul (ha : a.IsIntegral) (hb : b.IsIntegral) : (a.mul b).IsIntegral := by
  obtain ⟨A, hA⟩ := isIntegral_iff_exists_map.mp ha
  obtain ⟨B, hB⟩ := isIntegral_iff_exists_map.mp hb
  refine isIntegral_iff_exists_map.mpr ⟨A * B, ?_⟩
  rw [toMatrix_mul, hA, hB]
  exact (Matrix.map_mul (f := Int.castRingHom ℚ)).symm

theorem IsIntegral.adjugate (h : m.IsIntegral) : m.adjugate.IsIntegral := by
  obtain ⟨N, hN⟩ := isIntegral_iff_exists_map.mp h
  refine isIntegral_iff_exists_map.mpr ⟨N.adjugate, ?_⟩
  rw [toMatrix_adjugate, hN]
  exact ((Int.castRingHom ℚ).map_adjugate N).symm

theorem IsIntegral.det (h : m.IsIntegral) : ∃ n : ℤ, m.det = n := by
  obtain ⟨N, hN⟩ := isIntegral_iff_exists_map.mp h
  refine ⟨N.det, ?_⟩
  rw [← det_toMatrix, hN]
  exact ((Int.castRingHom ℚ).map_det N).symm

theorem IsIntegral.setRow_sub_scale (h : m.IsIntegral) (r i : Fin 3) (q : ℤ) :
    (m.setRow r ((m.row r).sub ((m.row i).scale q))).IsIntegral := by
  intro l c
  rw [get_setRow]
  split_ifs
  · obtain ⟨x, hx⟩ := h r c
    obtain ⟨y, hy⟩ := h i c
    refine ⟨x - q * y, ?_⟩
    fin_cases c <;> simp_all [get_def]
  · exact h l c

theorem IsIntegral.swapRows (h : m.IsIntegral) (i j : Fin 3) : (m.swapRows i j).IsIntegral := by
  intro l c
  simp only [Mat3.swapRows, get_setRow]
  split_ifs
  · exact h i c
  · exact h j c
  · exact h l c

theorem get_round {α : Type} [Scalar α] (m : Mat3 α) (i j : Fin 3) :
    m.round.get i j = Scalar.roundHalfEven (m.get i j) + Scalar.zero := by
  fin_cases i <;> fin_cases j <;> rfl

theorem IsIntegral.round_eq (h : m.IsIntegral) : m.round = m := by
  refine eq_of_get_eq fun i j => ?_
  obtain ⟨n, hn⟩ := h i j
  rw [get_round, hn, scalar_roundHalfEven_rat, ratRoundHalfEven_intCast, scalar_zero_rat, add_zero]

end Integral

section Inverse

variable {m : Mat3 ℚ}

theorem validateFinite_rat (m : Mat3 ℚ) : m.validateFinite = .ok () := by
  simp [validateFinite, findIdx?, Vec3.findIdx?]

/-- Over the rationals the inverse exists exactly for a nonzero determinant, and is the
adjugate divided by it. -/
theorem inverse_eq_ok (h : m.det ≠ 0) :
    m.inverse = .ok (m.adjugate.mapRows (Vec3.map (· / m.det))) := by
  simp [inverse, validateFinite_rat, h, bind, Except.bind, Except.mapError, pure, Except.pure]

theorem toMatrix_div_det (m : Mat3 ℚ) :
    (m.adjugate.mapRows (Vec3.map (· / m.det))).toMatrix = m.det⁻¹ • m.toMatrix.adjugate := by
  rw [← toMatrix_adjugate]
  ext i j
  fin_cases i <;> fin_cases j <;> simp [mapRows, Vec3.map, get_def, div_eq_inv_mul]

theorem mul_div_det (h : m.det ≠ 0) :
    m.mul (m.adjugate.mapRows (Vec3.map (· / m.det))) = identity ∧
      (m.adjugate.mapRows (Vec3.map (· / m.det))).mul m = identity := by
  have hdet : m.toMatrix.det ≠ 0 := by rwa [det_toMatrix]
  constructor
  · apply toMatrix_injective
    rw [toMatrix_mul, toMatrix_div_det, toMatrix_identity, Matrix.mul_smul, Matrix.mul_adjugate,
      smul_smul, ← det_toMatrix, inv_mul_cancel₀ hdet, one_smul]
  · apply toMatrix_injective
    rw [toMatrix_mul, toMatrix_div_det, toMatrix_identity, Matrix.smul_mul, Matrix.adjugate_mul,
      smul_smul, ← det_toMatrix, inv_mul_cancel₀ hdet, one_smul]

theorem IsIntegral.div_det (h : m.IsIntegral) (hdet : m.det = 1 ∨ m.det = -1) :
    (m.adjugate.mapRows (Vec3.map (· / m.det))).IsIntegral := by
  intro i j
  obtain ⟨n, hn⟩ := h.adjugate i j
  have hentry :
      (m.adjugate.mapRows (Vec3.map (· / m.det))).get i j = m.adjugate.get i j / m.det := by
    fin_cases i <;> fin_cases j <;> rfl
  rw [hentry, hn]
  rcases hdet with hd | hd
  · exact ⟨n, by rw [hd, div_one]⟩
  · exact ⟨-n, by rw [hd, div_neg, div_one, Int.cast_neg]⟩

end Inverse

theorem get_mul_adjugate (m : Mat3 ℚ) (i j : Fin 3) :
    (m.mul m.adjugate).get i j = if i = j then m.det else 0 := by
  have h : (m.mul m.adjugate).toMatrix = m.det • 1 := by
    rw [toMatrix_mul, toMatrix_adjugate, Matrix.mul_adjugate, det_toMatrix]
  simpa [Matrix.one_apply] using congrFun (congrFun h i) j

end Mat3

namespace Vec3

def IsIntegral (v : Vec3 ℚ) : Prop := ∀ j, ∃ n : ℤ, v.get j = n

section Products

open Mat3

@[simp] theorem get_add (v w : Vec3 ℚ) (j : Fin 3) : (v.add w).get j = v.get j + w.get j := by
  fin_cases j <;> rfl

@[simp] theorem get_sub (v w : Vec3 ℚ) (j : Fin 3) : (v.sub w).get j = v.get j - w.get j := by
  fin_cases j <;> rfl

theorem normSq_add (v w : Vec3 ℚ) : (v.add w).normSq = v.normSq + 2 * v.dot w + w.normSq := by
  simp only [normSq_def, dot_def, add_x, add_y, add_z]
  ring

theorem normSq_sub (v w : Vec3 ℚ) : (v.sub w).normSq = v.normSq - 2 * v.dot w + w.normSq := by
  simp only [normSq_def, dot_def, sub_x, sub_y, sub_z]
  ring

theorem get_mulMat (v : Vec3 ℚ) (m : Mat3 ℚ) (j : Fin 3) :
    (v.mulMat m).get j = v.get 0 * m.get 0 j + v.get 1 * m.get 1 j + v.get 2 * m.get 2 j := by
  simp only [mulMat, get_ofFn, scalar_zero_rat, zero_add, get_def, row_zero, row_one, row_two,
    get_zero, get_one, get_two]

theorem dot_eq_sum (v w : Vec3 ℚ) : v.dot w = ∑ j, v.get j * w.get j := by
  simp [dot_def, Fin.sum_univ_three]

@[simp] theorem get_col (m : Mat3 ℚ) (i j : Fin 3) : (m.col j).get i = m.get i j := by
  fin_cases i <;> rfl

theorem dot_col (v : Vec3 ℚ) (m : Mat3 ℚ) (j : Fin 3) : v.dot (m.col j) = (v.mulMat m).get j := by
  rw [get_mulMat, dot_eq_sum, Fin.sum_univ_three, get_col, get_col, get_col]

@[simp] theorem add_mulMat (v w : Vec3 ℚ) (m : Mat3 ℚ) :
    (v.add w).mulMat m = (v.mulMat m).add (w.mulMat m) := by
  ext <;> simp [mulMat] <;> ring

@[simp] theorem sub_mulMat (v w : Vec3 ℚ) (m : Mat3 ℚ) :
    (v.sub w).mulMat m = (v.mulMat m).sub (w.mulMat m) := by
  ext <;> simp [mulMat] <;> ring

theorem mulMat_mul (v : Vec3 ℚ) (a b : Mat3 ℚ) : v.mulMat (a.mul b) = (v.mulMat a).mulMat b := by
  ext <;> simp only [mulMat, ofFn_x, ofFn_y, ofFn_z, get_mul] <;> simp [get_def] <;> ring

@[simp] theorem mulMat_identity (v : Vec3 ℚ) : v.mulMat identity = v := by
  ext <;> simp [mulMat, identity, get_def]

theorem mulMat_mul_adjugate (v : Vec3 ℚ) (m : Mat3 ℚ) :
    (v.mulMat m).mulMat m.adjugate = v.scale m.det := by
  rw [← mulMat_mul]
  ext <;> simp [mulMat, get_mul_adjugate, mul_comm]

/-- The Cauchy–Schwarz inequality, from Lagrange's identity in three dimensions. -/
theorem dot_sq_le (v w : Vec3 ℚ) : v.dot w ^ 2 ≤ v.normSq * w.normSq := by
  have hlagrange : v.normSq * w.normSq - v.dot w ^ 2 =
      (v.x * w.y - v.y * w.x) ^ 2 + (v.x * w.z - v.z * w.x) ^ 2 + (v.y * w.z - v.z * w.y) ^ 2 := by
    simp only [normSq_def, dot_def]
    ring
  nlinarith [sq_nonneg (v.x * w.y - v.y * w.x), sq_nonneg (v.x * w.z - v.z * w.x),
    sq_nonneg (v.y * w.z - v.z * w.y)]

end Products

section Integral

variable {v w : Vec3 ℚ}

theorem IsIntegral.add (hv : v.IsIntegral) (hw : w.IsIntegral) : (v.add w).IsIntegral := by
  intro j
  obtain ⟨a, ha⟩ := hv j
  obtain ⟨b, hb⟩ := hw j
  exact ⟨a + b, by rw [get_add, ha, hb, Int.cast_add]⟩

theorem IsIntegral.sub (hv : v.IsIntegral) (hw : w.IsIntegral) : (v.sub w).IsIntegral := by
  intro j
  obtain ⟨a, ha⟩ := hv j
  obtain ⟨b, hb⟩ := hw j
  exact ⟨a - b, by rw [get_sub, ha, hb, Int.cast_sub]⟩

theorem IsIntegral.mulMat {m : Mat3 ℚ} (hv : v.IsIntegral) (hm : m.IsIntegral) :
    (v.mulMat m).IsIntegral := by
  choose a ha using hv
  choose n hn using hm
  intro j
  refine ⟨a 0 * n 0 j + a 1 * n 1 j + a 2 * n 2 j, ?_⟩
  rw [get_mulMat, ha, ha, ha, hn, hn, hn]
  push_cast
  rfl

end Integral

end Vec3

end CrystalLattice
