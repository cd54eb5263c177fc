import CrystalLattice.Proofs.MatrixView
import CrystalLattice.Proofs.ReductionStep

/-!
The reduction changes its basis only by integer row operations, and applies each of them to
the integer matrix alongside: a size reduction subtracts an integer multiple of a lower row,
a swap exchanges two rows. So between steps the basis is the integer matrix times the input
lattice, and the integer matrix has determinant `±1`. The main statement: a reduction that
succeeds returns an integral matrix of determinant `±1` that maps the input lattice to the
reduced basis, together with its inverse, which is integral and a two-sided inverse; so the
reduced basis spans a cell of the same volume.
-/

namespace CrystalLattice.Reduction

open Mat3

/-- `basis` spans the same lattice as `lattice`: it is `mapping` times `lattice`, for an
integral `mapping` of determinant `±1`. -/
structure SameLattice (lattice basis mapping : Mat3 ℚ) : Prop where
  basis_eq : basis = mapping.mul lattice
  integral : mapping.IsIntegral
  det_eq : mapping.det = 1 ∨ mapping.det = -1

namespace SameLattice

variable {lattice basis mapping : Mat3 ℚ}

theorem start (lattice : Mat3 ℚ) : SameLattice lattice lattice identity :=
  ⟨(identity_mul lattice).symm, isIntegral_identity, Or.inl det_identity⟩

/-- Subtracting an integer multiple of another row, in the basis and in the integer matrix
alike, keeps the lattice. -/
theorem setRow_sub_scale (h : SameLattice lattice basis mapping) {r i : Fin 3} (hi : r ≠ i)
    (q : ℤ) :
    SameLattice lattice (basis.setRow r ((basis.row r).sub ((basis.row i).scale q)))
      (mapping.setRow r ((mapping.row r).sub ((mapping.row i).scale q))) := by
  refine ⟨?_, h.integral.setRow_sub_scale r i q, ?_⟩
  · rw [setRow_mul, Vec3.sub_scale_mulMat, ← row_mul, ← row_mul, h.basis_eq]
  · rw [det_setRow_sub_scale _ hi]
    exact h.det_eq

theorem swapRows (h : SameLattice lattice basis mapping) {i j : Fin 3} (hij : i ≠ j) :
    SameLattice lattice (basis.swapRows i j) (mapping.swapRows i j) := by
  refine ⟨by rw [swapRows_mul, h.basis_eq], h.integral.swapRows i j, ?_⟩
  rw [det_swapRows _ hij]
  rcases h.det_eq with hd | hd
  · exact Or.inr (by rw [hd])
  · exact Or.inl (by rw [hd, neg_neg])

theorem abs_det (h : SameLattice lattice basis mapping) : |basis.det| = |lattice.det| := by
  rw [h.basis_eq, det_mul, abs_mul]
  rcases h.det_eq with hd | hd <;> simp [hd]

theorem det_ne_zero (h : SameLattice lattice basis mapping) : mapping.det ≠ 0 := by
  rcases h.det_eq with hd | hd <;> rw [hd] <;> norm_num

end SameLattice

section Loop

variable {lattice : Mat3 ℚ} {o : Options ℚ}

theorem ReducedFrom.sameLattice {r : Fin 3} {p p' : Progress ℚ} (hred : ReducedFrom r p p')
    (h : SameLattice lattice p.basis p.mapping) : SameLattice lattice p'.basis p'.mapping := by
  induction hred with
  | refl => exact h
  | subtract i q hi _ ih => exact ih.setRow_sub_scale (Fin.ne_of_gt hi) q

/-- One step keeps the lattice: size reduction by integer multiples, then perhaps a swap. -/
theorem step_sameLattice {p p' : Progress ℚ} {ev : StepEvent}
    (h : SameLattice lattice p.basis p.mapping) (hs : p.step o = .ok (p', ev)) :
    SameLattice lattice p'.basis p'.mapping := by
  by_cases hk : 2 ≤ p.k ∧ p.k ≤ 3
  · obtain ⟨r, lower, p₁, hr, hlower, hp₁, hcase⟩ := Progress.step_cases hs hk
    have h₁ : SameLattice lattice p₁.basis p₁.mapping :=
      hp₁ ▸ (Progress.sizeReduce_reducedFrom _ r).sameLattice h
    rcases hcase with ⟨-, rfl⟩ | ⟨-, gs, -, rfl⟩
    · exact h₁
    · exact h₁.swapRows (Fin.ne_of_val_ne (by omega))
  · rw [Progress.step_of_not_mem hs hk]
    exact h

theorem runSteps_sameLattice {gs : GramSchmidt ℚ} {budget : ℕ} {trace trace' : Array StepEvent}
    {p : Progress ℚ}
    (hrun : runSteps o budget ⟨lattice, identity, gs, 2, 0, 0⟩ trace = (trace', .ok p)) :
    SameLattice lattice p.basis p.mapping :=
  (runSteps_preserves o (fun p => SameLattice lattice p.basis p.mapping)
    (fun _ _ _ hp _ hs => step_sameLattice hp hs) budget _ trace trace' p
    (SameLattice.start lattice) hrun).1

end Loop

section Independence

open GramSchmidt

variable {basis : Mat3 ℚ} {g : GramSchmidt ℚ}

theorem GramSchmidt.Orthogonalises.coeff_zeros (h : Orthogonalises basis g 3) :
    g.coeff.r0.x = 0 ∧ g.coeff.r0.y = 0 ∧ g.coeff.r0.z = 0 ∧ g.coeff.r1.y = 0 ∧
      g.coeff.r1.z = 0 ∧ g.coeff.r2.z = 0 :=
  ⟨(h 0 (by decide)).coeff_upper 0 le_rfl, (h 0 (by decide)).coeff_upper 1 (by decide),
    (h 0 (by decide)).coeff_upper 2 (by decide), (h 1 (by decide)).coeff_upper 1 le_rfl,
    (h 1 (by decide)).coeff_upper 2 (by decide), (h 2 (by decide)).coeff_upper 2 le_rfl⟩

/-- The basis is its orthogonal vectors recombined by the unit lower-triangular matrix of
coefficients. -/
theorem GramSchmidt.Orthogonalises.toMatrix_eq (h : Orthogonalises basis g 3) :
    basis.toMatrix = (1 + g.coeff.toMatrix) * g.ortho.toMatrix := by
  obtain ⟨h00, h01, h02, h11, h12, h22⟩ := h.coeff_zeros
  ext i j
  have hrow := congrArg (fun v => Vec3.get v j) (h i i.isLt).decompose
  simp only [Matrix.mul_apply, Fin.sum_univ_three, Matrix.add_apply, Matrix.one_apply,
    toMatrix_apply]
  fin_cases i <;> fin_cases j <;> simp_all [projection, get_def] <;> ring

theorem GramSchmidt.Orthogonalises.det_one_add_coeff (h : Orthogonalises basis g 3) :
    (1 + g.coeff.toMatrix).det = 1 := by
  obtain ⟨h00, h01, h02, h11, h12, h22⟩ := h.coeff_zeros
  rw [Matrix.det_fin_three]
  simp [get_def, h00, h01, h02, h11, h12, h22]

/-- Pairwise orthogonal rows: the square of the determinant is the product of the squared
lengths. -/
theorem GramSchmidt.Orthogonalises.det_ortho_sq (h : Orthogonalises basis g 3) :
    g.ortho.det ^ 2 = g.normSq.get 0 * g.normSq.get 1 * g.normSq.get 2 := by
  have hgram : g.ortho.toMatrix * g.ortho.toMatrix.transpose = Matrix.diagonal g.normSq.get := by
    ext i j
    have hdot : (g.ortho.row i).dot (g.ortho.row j) = if i = j then g.normSq.get i else 0 := by
      split_ifs with hij
      · subst hij
        exact (h i i.isLt).dot_self
      · exact h.dot_eq_zero i.isLt j.isLt hij
    rw [Matrix.diagonal_apply, ← hdot, Matrix.mul_apply, Fin.sum_univ_three]
    simp [Vec3.dot_def, get_def]
  have hdet := congrArg Matrix.det hgram
  rw [Matrix.det_mul, Matrix.det_transpose, det_toMatrix, Matrix.det_diagonal,
    Fin.prod_univ_three] at hdet
  rw [sq, hdet]

theorem GramSchmidt.Orthogonalises.det_eq_ortho_det (h : Orthogonalises basis g 3) :
    basis.det = g.ortho.det := by
  rw [← det_toMatrix, h.toMatrix_eq, Matrix.det_mul, h.det_one_add_coeff, one_mul, det_toMatrix]

theorem GramSchmidt.Orthogonalises.det_ne_zero (h : Orthogonalises basis g 3) : basis.det ≠ 0 := by
  have hpos : 0 < g.ortho.det ^ 2 := by
    rw [h.det_ortho_sq]
    exact mul_pos (mul_pos (h 0 (by decide)).normSq_pos (h 1 (by decide)).normSq_pos)
      (h 2 (by decide)).normSq_pos
  rw [h.det_eq_ortho_det]
  exact fun h0 => by simp [h0] at hpos

end Independence

/-- What a successful exact reduction returns: a basis of the input lattice, which is
independent, with the integer matrix that maps the input to it and the integral two-sided
inverse of that matrix. -/
structure ReducesTo (lattice : Mat3 ℚ) (res : Result ℚ) : Prop where
  sameLattice : SameLattice lattice res.reduced res.mapping
  det_ne_zero : lattice.det ≠ 0
  inverse_integral : res.inverse.IsIntegral
  mul_inverse : res.mapping.mul res.inverse = identity
  inverse_mul : res.inverse.mul res.mapping = identity

theorem reduce_reducesTo {lattice : Mat3 ℚ} {settings : List (Setting ℚ)} {res : Result ℚ}
    (h : (reduce lattice settings).result = .ok res) : ReducesTo lattice res := by
  rw [reduce_result] at h
  obtain ⟨gs, trace, p, hgs, hrun, hfin⟩ := runWith_eq_ok h
  have hp := runSteps_sameLattice hrun
  obtain ⟨inv, hinv, rfl⟩ := finish_eq_ok hfin
  rw [hp.integral.round_eq] at hinv ⊢
  rw [inverse_eq_ok hp.det_ne_zero, Except.ok.injEq] at hinv
  subst hinv
  have hinvIntegral := hp.integral.div_det hp.det_eq
  rw [hinvIntegral.round_eq]
  obtain ⟨hright, hleft⟩ := mul_div_det hp.det_ne_zero
  exact ⟨hp, (GramSchmidt.compute_orthogonalises hgs).det_ne_zero, hinvIntegral, hright, hleft⟩

namespace ReducesTo

variable {lattice : Mat3 ℚ} {res : Result ℚ}

theorem inverse_mul_reduced (h : ReducesTo lattice res) :
    res.inverse.mul res.reduced = lattice := by
  rw [h.sameLattice.basis_eq, ← mul_assoc, h.inverse_mul, identity_mul]

theorem reduced_det_ne_zero (h : ReducesTo lattice res) : res.reduced.det ≠ 0 := by
  rw [h.sameLattice.basis_eq, det_mul]
  exact mul_ne_zero h.sameLattice.det_ne_zero h.det_ne_zero

end ReducesTo

/-- A reduction that succeeds returns an integral matrix of determinant `±1` that maps the
input lattice to the reduced basis, and its inverse, integral and two-sided; the reduced
basis spans a cell of the input's volume. -/
theorem reduce_mapping_unimodular {lattice : Mat3 ℚ} {settings : List (Setting ℚ)}
    {res : Result ℚ} (h : (reduce lattice settings).result = .ok res) :
    res.mapping.IsIntegral ∧ (res.mapping.det = 1 ∨ res.mapping.det = -1) ∧
      res.reduced = res.mapping.mul lattice ∧ res.inverse.IsIntegral ∧
      res.mapping.mul res.inverse = identity ∧ res.inverse.mul res.mapping = identity ∧
      |res.reduced.det| = |lattice.det| := by
  have hr := reduce_reducesTo h
  exact ⟨hr.sameLattice.integral, hr.sameLattice.det_eq, hr.sameLattice.basis_eq,
    hr.inverse_integral, hr.mul_inverse, hr.inverse_mul, hr.sameLattice.abs_det⟩

/-- A sheared lattice is reduced in two steps by subtracting three times the first vector from
the last; the integer matrix has determinant `1` and its inverse is the shear. -/
theorem shearedLattice_reduce_unimodular :
    let res : Result ℚ :=
      ⟨identity, ⟨⟨1, 0, 0⟩, ⟨0, 1, 0⟩, ⟨-3, 0, 1⟩⟩, ⟨⟨1, 0, 0⟩, ⟨0, 1, 0⟩, ⟨3, 0, 1⟩⟩, 2, 0⟩
    (reduce (⟨⟨1, 0, 0⟩, ⟨0, 1, 0⟩, ⟨3, 0, 1⟩⟩ : Mat3 ℚ) []).result = .ok res ∧
      res.mapping.IsIntegral ∧ (res.mapping.det = 1 ∨ res.mapping.det = -1) ∧
      res.reduced = res.mapping.mul ⟨⟨1, 0, 0⟩, ⟨0, 1, 0⟩, ⟨3, 0, 1⟩⟩ ∧ res.inverse.IsIntegral ∧
      res.mapping.mul res.inverse = identity ∧ res.inverse.mul res.mapping = identity ∧
      |res.reduced.det| = |det (⟨⟨1, 0, 0⟩, ⟨0, 1, 0⟩, ⟨3, 0, 1⟩⟩ : Mat3 ℚ)| := by
  intro res
  have hgs : GramSchmidt.compute (⟨⟨1, 0, 0⟩, ⟨0, 1, 0⟩, ⟨3, 0, 1⟩⟩ : Mat3 ℚ)
      (Options.ofSettings [] : Options ℚ).tolerance =
      .ok ⟨identity, ⟨1, 1, 1⟩, ⟨⟨0, 0, 0⟩, ⟨0, 0, 0⟩, ⟨3, 0, 0⟩⟩⟩ := by
    with_unfolding_all rfl
  have h₁ : Progress.step (Options.ofSettings [] : Options ℚ)
      ⟨⟨⟨1, 0, 0⟩, ⟨0, 1, 0⟩, ⟨3, 0, 1⟩⟩, identity,
        ⟨identity, ⟨1, 1, 1⟩, ⟨⟨0, 0, 0⟩, ⟨0, 0, 0⟩, ⟨3, 0, 0⟩⟩⟩, 2, 0, 0⟩ =
      .ok (⟨⟨⟨1, 0, 0⟩, ⟨0, 1, 0⟩, ⟨3, 0, 1⟩⟩, identity,
        ⟨identity, ⟨1, 1, 1⟩, ⟨⟨0, 0, 0⟩, ⟨0, 0, 0⟩, ⟨3, 0, 0⟩⟩⟩, 3, 1, 0⟩,
        ⟨1, 2, .advance, 0, 0⟩) := by
    with_unfolding_all rfl
  have h₂ : Progress.step (Options.ofSettings [] : Options ℚ)
      ⟨⟨⟨1, 0, 0⟩, ⟨0, 1, 0⟩, ⟨3, 0, 1⟩⟩, identity,
        ⟨identity, ⟨1, 1, 1⟩, ⟨⟨0, 0, 0⟩, ⟨0, 0, 0⟩, ⟨3, 0, 0⟩⟩⟩, 3, 1, 0⟩ =
      .ok (⟨identity, ⟨⟨1, 0, 0⟩, ⟨0, 1, 0⟩, ⟨-3, 0, 1⟩⟩, ⟨identity, ⟨1, 1, 1⟩, Mat3.zero⟩,
        4, 2, 0⟩,
        ⟨2, 3, .advance, 1, 0⟩) := by
    with_unfolding_all rfl
  have hres : (reduce (⟨⟨1, 0, 0⟩, ⟨0, 1, 0⟩, ⟨3, 0, 1⟩⟩ : Mat3 ℚ) []).result = .ok res := by
    rw [reduce_result_of_run rfl (validateFinite_rat _) hgs
      ((runSteps_succ_of_step (by decide) h₁ 9999).trans
        ((runSteps_succ_of_step (by decide) h₂ 9998).trans (runSteps_of_lt (by decide) 9998)))]
    with_unfolding_all rfl
  exact ⟨hres, reduce_mapping_unimodular hres⟩

end CrystalLattice.Reduction
