import CrystalLattice.Proofs.Idempotence
import CrystalLattice.Proofs.PeriodicTranslation
import CrystalLattice.Proofs.CongruentLattices

/-!
# How short a reduced basis is

The guarantee of LLL reduction, in exact arithmetic. In a basis reduced for `δ`, with
`α = 1 / (δ - 1/4)`, each orthogonal vector is at least `1/α` times as long (in squared
length) as the one before it, so `‖b*ⱼ‖² ≤ α^(i-j) ‖b*ᵢ‖²` for `j ≤ i`. Every nonzero vector of
the lattice is at least as long as the orthogonal vector of its last nonzero coordinate, so
the first reduced vector is within `α²` of the shortest nonzero vector of the lattice.
-/

namespace CrystalLattice.Reduction

open GramSchmidt CrystalLattice.Vec3

/-- The factor `α = 1 / (δ - 1/4)` by which consecutive orthogonal vectors of a basis reduced for
`δ` may shrink. -/
def lovaszFactor (δ : ℚ) : ℚ := 1 / (δ - 1 / 4)

theorem one_le_lovaszFactor {δ : ℚ} (h : deltaValid δ = true) : 1 ≤ lovaszFactor δ := by
  have hlow := one_quarter_lt_of_deltaValid h
  have hhigh := lt_one_of_deltaValid h
  rw [lovaszFactor, le_div_iff₀ (by linarith)]
  linarith

theorem one_le_sq_of_int {q : ℚ} {n : ℤ} (hq : q = n) (h : q ≠ 0) : 1 ≤ q ^ 2 := by
  have hn : n ≠ 0 := by rintro rfl; simp_all
  have habs : (1 : ℚ) ≤ |q| := by rw [hq]; exact_mod_cast Int.one_le_abs hn
  exact one_le_sq_iff_one_le_abs _ |>.mpr habs

section Orthogonal

variable {basis : Mat3 ℚ} {g : GramSchmidt ℚ}

/-- A combination of the rows of an orthogonalised basis, measured along the orthogonal vectors:
the coefficient of `b*₂` is that of `b₂`, and those of `b*₁` and `b*₀` collect the later rows
through the Gram–Schmidt coefficients. -/
theorem GramSchmidt.Orthogonalises.normSq_mulMat (h : Orthogonalises basis g 3) (c : Vec3 ℚ) :
    (c.mulMat basis).normSq =
      (c.x + c.y * g.coeff.r1.x + c.z * g.coeff.r2.x) ^ 2 * g.normSq.x +
        (c.y + c.z * g.coeff.r2.y) ^ 2 * g.normSq.y + c.z ^ 2 * g.normSq.z := by
  obtain ⟨hr0, hr1, hr2⟩ := h.rows_eq
  obtain ⟨m0, m1, m2, o10, o20, o21⟩ := h.ortho_dots
  have hv : c.mulMat basis =
      ((basis.r0.scale c.x).add (basis.r1.scale c.y)).add (basis.r2.scale c.z) := by
    ext <;> simp [mulMat, Mat3.get_def]
  rw [hv, hr0, hr1, hr2]
  simp only [normSq_eq_dot, dot_add_left, dot_add_right, dot_scale_left, dot_scale_right,
    dot_comm g.ortho.r0 g.ortho.r1, dot_comm g.ortho.r0 g.ortho.r2, dot_comm g.ortho.r1 g.ortho.r2,
    m0, m1, m2, o10, o20, o21]
  ring

/-- A nonzero integer combination of an orthogonalised basis is at least as long as one of the
orthogonal vectors: the one of its last nonzero coordinate. -/
theorem GramSchmidt.Orthogonalises.exists_normSq_le (h : Orthogonalises basis g 3)
    {c : Vec3 ℚ} (hc : c.IsIntegral) (hne : c ≠ Vec3.zero) :
    ∃ k : Fin 3, g.normSq.get k ≤ (c.mulMat basis).normSq := by
  have hM0 : 0 < g.normSq.x := (h 0 (by decide)).normSq_pos
  have hM1 : 0 < g.normSq.y := (h 1 (by decide)).normSq_pos
  have hM2 : 0 < g.normSq.z := (h 2 (by decide)).normSq_pos
  obtain ⟨a, ha⟩ := hc 0
  obtain ⟨b, hb⟩ := hc 1
  obtain ⟨d, hd⟩ := hc 2
  simp only [get_zero, get_one, get_two] at ha hb hd
  rw [h.normSq_mulMat]
  by_cases hz : c.z = 0
  · by_cases hy : c.y = 0
    · have hx : c.x ≠ 0 := fun hx => hne (Vec3.ext hx hy hz)
      have hx1 := one_le_sq_of_int ha hx
      refine ⟨0, ?_⟩
      simp only [get_zero, hy, hz, zero_mul, add_zero, zero_pow two_ne_zero]
      nlinarith
    · have hy1 := one_le_sq_of_int hb hy
      refine ⟨1, ?_⟩
      simp only [get_one, hz, zero_mul, add_zero, zero_pow two_ne_zero]
      nlinarith [sq_nonneg (c.x + c.y * g.coeff.r1.x)]
  · have hz1 := one_le_sq_of_int hd hz
    refine ⟨2, ?_⟩
    simp only [get_two]
    nlinarith [sq_nonneg (c.x + c.y * g.coeff.r1.x + c.z * g.coeff.r2.x),
      sq_nonneg (c.y + c.z * g.coeff.r2.y)]

end Orthogonal

section Reduced

variable {δ : ℚ} {basis : Mat3 ℚ} {g : GramSchmidt ℚ}

/-- In a reduced orthogonalisation an orthogonal vector is at most `α` times the next one: the
Lovász condition with a coefficient of at most one half gives `(δ - 1/4) ‖b*ⱼ‖² ≤ ‖b*ᵢ‖²`. -/
theorem normSq_le_lovaszFactor_mul (hδ : 1 / 4 < δ) (horth : Orthogonalises basis g 3)
    (hsize : SizeReducedBelow g 3) (hlov : LovaszBelow δ g 3) {i j : Fin 3}
    (hij : j.val + 1 = i.val) : g.normSq.get j ≤ lovaszFactor δ * g.normSq.get i := by
  have hμ := hsize i j (Fin.lt_def.mpr (by omega)) i.isLt
  have hμ2 : g.coeff.get i j * g.coeff.get i j ≤ 1 / 4 := by
    rw [← abs_mul_abs_self]
    nlinarith [abs_nonneg (g.coeff.get i j)]
  have hMj : 0 < g.normSq.get j := (horth j j.isLt).normSq_pos
  have hstep := hlov i j hij i.isLt
  rw [lovaszFactor, one_div_mul_eq_div, le_div_iff₀ (by linarith)]
  calc g.normSq.get j * (δ - 1 / 4)
      ≤ (δ - g.coeff.get i j * g.coeff.get i j) * g.normSq.get j := by nlinarith
    _ ≤ g.normSq.get i := hstep

/-- Along a reduced orthogonalisation the squared lengths shrink at most geometrically:
`‖b*ⱼ‖² ≤ α^(i-j) ‖b*ᵢ‖²` for `j ≤ i`. -/
theorem normSq_le_lovaszFactor_pow_mul (hδ : 1 / 4 < δ) (horth : Orthogonalises basis g 3)
    (hsize : SizeReducedBelow g 3) (hlov : LovaszBelow δ g 3) :
    ∀ i j : Fin 3, j ≤ i → g.normSq.get j ≤ lovaszFactor δ ^ (i.val - j.val) * g.normSq.get i := by
  have h10 := normSq_le_lovaszFactor_mul hδ horth hsize hlov (i := 1) (j := 0) rfl
  have h21 := normSq_le_lovaszFactor_mul hδ horth hsize hlov (i := 2) (j := 1) rfl
  have hα : 0 ≤ lovaszFactor δ := by
    rw [lovaszFactor]
    exact div_nonneg zero_le_one (by linarith)
  intro i j hji
  fin_cases i <;> fin_cases j <;> simp at hji ⊢
  · exact h10
  · -- two steps: `‖b*₀‖² ≤ α ‖b*₁‖² ≤ α² ‖b*₂‖²`
    calc g.normSq.x ≤ lovaszFactor δ * g.normSq.y := h10
      _ ≤ lovaszFactor δ * (lovaszFactor δ * g.normSq.z) := by gcongr; exact h21
      _ = lovaszFactor δ ^ 2 * g.normSq.z := by ring
  · exact h21

/-- The first vector of a reduced basis is within `α²` of every nonzero integer combination of
the basis. -/
theorem normSq_first_le_mulMat (hδ : deltaValid δ = true) (horth : Orthogonalises basis g 3)
    (hsize : SizeReducedBelow g 3) (hlov : LovaszBelow δ g 3) {c : Vec3 ℚ} (hc : c.IsIntegral)
    (hne : c ≠ Vec3.zero) :
    basis.r0.normSq ≤ lovaszFactor δ ^ 2 * (c.mulMat basis).normSq := by
  obtain ⟨k, hk⟩ := horth.exists_normSq_le hc hne
  have hchain := normSq_le_lovaszFactor_pow_mul (one_quarter_lt_of_deltaValid hδ) horth hsize hlov
    k 0 (Fin.zero_le k)
  have hfirst : basis.r0.normSq = g.normSq.get 0 := by
    rw [horth.rows_eq.1, normSq_eq_dot, horth.ortho_dots.1, get_zero]
  have hpow : lovaszFactor δ ^ k.val ≤ lovaszFactor δ ^ 2 :=
    pow_le_pow_right₀ (one_le_lovaszFactor hδ) (by omega)
  have hMk : 0 ≤ g.normSq.get k := (horth k k.isLt).normSq_pos.le
  calc basis.r0.normSq = g.normSq.get 0 := hfirst
    _ ≤ lovaszFactor δ ^ k.val * g.normSq.get k := by simpa using hchain
    _ ≤ lovaszFactor δ ^ 2 * g.normSq.get k := by gcongr
    _ ≤ lovaszFactor δ ^ 2 * (c.mulMat basis).normSq := by gcongr

end Reduced

/-- A successful exact reduction returns a basis reduced for its `δ`, a valid one, orthogonalised
by the state that its closing check computes at the reduction's tolerance. -/
theorem reduce_reducedState {lattice : Mat3 ℚ} {settings : List (Setting ℚ)} {res : Result ℚ}
    (h : (reduce lattice settings).result = .ok res) :
    deltaValid (Options.ofSettings settings).delta = true ∧
      ∃ g, compute res.reduced (Options.ofSettings settings).tolerance = .ok g ∧
        Orthogonalises res.reduced g 3 ∧ SizeReducedBelow g 3 ∧
        LovaszBelow (Options.ofSettings settings).delta g 3 := by
  rw [reduce_result] at h
  obtain ⟨gs, trace, p, hgs, hrun, hfin⟩ := runWith_eq_ok h
  obtain ⟨hinv, hk⟩ := runSteps_loopInvariant (loopInvariant_start _ hgs) hrun
  have hk4 : p.k - 1 = 3 := by have := hinv.k_le; omega
  obtain ⟨hδ, -, -, g, hg, -⟩ := checkReduced_eq_ok_iff.mp (checkReduced_of_finish hfin)
  obtain rfl : g = p.gs := hinv.orthogonalises.unique (compute_orthogonalises hg)
  obtain ⟨inv, -, rfl⟩ := finish_eq_ok hfin
  exact ⟨hδ, p.gs, hg, hinv.orthogonalises, hk4 ▸ hinv.sizeReduced, hk4 ▸ hinv.lovasz⟩

/-- With `α = 1 / (δ - 1/4)`, the first vector of an exact reduction is at most `α²` times as long,
in squared length, as any nonzero lattice vector, and `‖b*ⱼ‖² ≤ α^(i-j) ‖b*ᵢ‖²` for `j ≤ i`. -/
theorem reduce_first_vector_within_lovaszFactor {lattice : Mat3 ℚ} {settings : List (Setting ℚ)}
    {res : Result ℚ} (h : (reduce lattice settings).result = .ok res) :
    (∀ n : Offset, n ≠ Offset.zero →
      res.reduced.r0.normSq ≤ lovaszFactor (Options.ofSettings settings).delta ^ 2 *
        ((n.toVec : Vec3 ℚ).mulMat lattice).normSq) ∧
    (∃ g, compute res.reduced (Options.ofSettings settings).tolerance = .ok g) ∧
    ∀ (tol : ℚ) (g : GramSchmidt ℚ), compute res.reduced tol = .ok g → ∀ i j : Fin 3, j ≤ i →
      g.normSq.get j ≤ lovaszFactor (Options.ofSettings settings).delta ^ (i.val - j.val) *
        g.normSq.get i := by
  obtain ⟨hδ, g, hg, horth, hsize, hlov⟩ := reduce_reducedState h
  have hr := reduce_reducesTo h
  refine ⟨fun n hn => ?_, ⟨g, hg⟩, fun tol g' hg' => ?_⟩
  · -- `n L` is the integer combination `n M⁻¹` of the reduced basis, nonzero as `n` is
    set c : Vec3 ℚ := (n.toVec : Vec3 ℚ).mulMat res.inverse with hc
    have hnL : (n.toVec : Vec3 ℚ).mulMat lattice = c.mulMat res.reduced := by
      rw [← hr.inverse_mul_reduced, mulMat_mul]
    have hcn : c.mulMat res.mapping = n.toVec := by
      rw [hc, ← mulMat_mul, hr.inverse_mul, mulMat_identity]
    have hne : c ≠ Vec3.zero := by
      intro hz
      rw [hz, zero_mulMat] at hcn
      exact hn (Offset.eq_zero_of_toVec_eq_zero hcn.symm)
    rw [hnL]
    exact normSq_first_le_mulMat hδ horth hsize hlov
      (n.toVec_isIntegral.mulMat hr.inverse_integral) hne
  · -- every orthogonalisation of the reduced basis is the one the reduction checked
    obtain rfl : g' = g := horth.unique (compute_orthogonalises hg')
    exact normSq_le_lovaszFactor_pow_mul (one_quarter_lt_of_deltaValid hδ) horth hsize hlov

/-- A sheared plane is reduced by subtracting twice the first vector from the second, in two
steps; its first vector `(1, 0, 0)` is then within `α²` of every lattice vector. -/
theorem shearedPlane_first_vector_within_lovaszFactor :
    let res : Result ℚ :=
      ⟨Mat3.identity, ⟨⟨1, 0, 0⟩, ⟨-2, 1, 0⟩, ⟨0, 0, 1⟩⟩, ⟨⟨1, 0, 0⟩, ⟨2, 1, 0⟩, ⟨0, 0, 1⟩⟩, 2, 0⟩
    (reduce ⟨⟨1, 0, 0⟩, ⟨2, 1, 0⟩, ⟨0, 0, 1⟩⟩ []).result = .ok res ∧
      (∀ n : Offset, n ≠ Offset.zero →
        res.reduced.r0.normSq ≤ lovaszFactor (Options.ofSettings [] : Options ℚ).delta ^ 2 *
          ((n.toVec : Vec3 ℚ).mulMat ⟨⟨1, 0, 0⟩, ⟨2, 1, 0⟩, ⟨0, 0, 1⟩⟩).normSq) ∧
      (∃ g, compute res.reduced (Options.ofSettings [] : Options ℚ).tolerance = .ok g) ∧
      ∀ (tol : ℚ) (g : GramSchmidt ℚ), compute res.reduced tol = .ok g → ∀ i j : Fin 3, j ≤ i →
        g.normSq.get j ≤ lovaszFactor (Options.ofSettings [] : Options ℚ).delta ^ (i.val - j.val) *
          g.normSq.get i := by
  intro res
  have hgs : compute (⟨⟨1, 0, 0⟩, ⟨2, 1, 0⟩, ⟨0, 0, 1⟩⟩ : Mat3 ℚ) (Options.ofSettings [] : Options ℚ).tolerance =
      .ok ⟨Mat3.identity, ⟨1, 1, 1⟩, ⟨⟨0, 0, 0⟩, ⟨2, 0, 0⟩, ⟨0, 0, 0⟩⟩⟩ := by
    with_unfolding_all rfl
  have h₁ : Progress.step (Options.ofSettings [] : Options ℚ)
      ⟨⟨⟨1, 0, 0⟩, ⟨2, 1, 0⟩, ⟨0, 0, 1⟩⟩, Mat3.identity, ⟨Mat3.identity, ⟨1, 1, 1⟩, ⟨⟨0, 0, 0⟩, ⟨2, 0, 0⟩, ⟨0, 0, 0⟩⟩⟩, 2, 0, 0⟩ =
      .ok (⟨Mat3.identity, ⟨⟨1, 0, 0⟩, ⟨-2, 1, 0⟩, ⟨0, 0, 1⟩⟩,
        ⟨Mat3.identity, ⟨1, 1, 1⟩, Mat3.zero⟩, 3, 1, 0⟩, ⟨1, 2, .advance, 1, 0⟩) := by
    with_unfolding_all rfl
  have h₂ : Progress.step (Options.ofSettings [] : Options ℚ)
      ⟨Mat3.identity, ⟨⟨1, 0, 0⟩, ⟨-2, 1, 0⟩, ⟨0, 0, 1⟩⟩,
        ⟨Mat3.identity, ⟨1, 1, 1⟩, Mat3.zero⟩, 3, 1, 0⟩ =
      .ok (⟨Mat3.identity, ⟨⟨1, 0, 0⟩, ⟨-2, 1, 0⟩, ⟨0, 0, 1⟩⟩,
        ⟨Mat3.identity, ⟨1, 1, 1⟩, Mat3.zero⟩, 4, 2, 0⟩, ⟨2, 3, .advance, 0, 0⟩) := by
    with_unfolding_all rfl
  have hres : (reduce ⟨⟨1, 0, 0⟩, ⟨2, 1, 0⟩, ⟨0, 0, 1⟩⟩ []).result = .ok res := by
    rw [reduce_result_of_run rfl (Mat3.validateFinite_rat _) hgs
      ((runSteps_succ_of_step (by decide) h₁ 9999).trans
        ((runSteps_succ_of_step (by decide) h₂ 9998).trans (runSteps_of_lt (by decide) 9998)))]
    with_unfolding_all rfl
  exact ⟨hres, reduce_first_vector_within_lovaszFactor hres⟩

end CrystalLattice.Reduction
