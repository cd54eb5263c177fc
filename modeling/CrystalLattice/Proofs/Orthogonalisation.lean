import CrystalLattice.Proofs.Degeneracy

/-!
# The orthogonalisation as a whole

From scratch the orthogonalisation refuses a degenerate vector or returns pairwise orthogonal
vectors, unit lower-triangular coefficients recombining them into the basis, and squared
lengths multiplying to the squared determinant (`orthogonalisation_correct`).
-/

namespace CrystalLattice.Reduction.GramSchmidt

open CrystalLattice.Mat3

/-- `g` is the Gram–Schmidt orthogonalisation of `basis`. With the coefficients strictly lower
triangular, `recombine` says that row `i` of the basis is `b*ᵢ + Σ_{j<i} μᵢⱼ b*ⱼ`. -/
structure IsOrthogonalisation (basis : Mat3 ℚ) (g : GramSchmidt ℚ) : Prop where
  orthogonal : ∀ i j, i ≠ j → (g.ortho.row i).dot (g.ortho.row j) = 0
  normSq_eq : ∀ i, g.normSq.get i = (g.ortho.row i).normSq
  normSq_pos : ∀ i, 0 < g.normSq.get i
  coeff_upper : ∀ i j, i ≤ j → g.coeff.get i j = 0
  recombine : basis.toMatrix = (1 + g.coeff.toMatrix) * g.ortho.toMatrix
  normSq_prod : g.normSq.get 0 * g.normSq.get 1 * g.normSq.get 2 = basis.det ^ 2

variable {basis : Mat3 ℚ} {g : GramSchmidt ℚ}

/-- The squared lengths of the orthogonal vectors multiply to the squared determinant of the
basis. -/
theorem Orthogonalises.normSq_prod (h : Orthogonalises basis g 3) :
    g.normSq.get 0 * g.normSq.get 1 * g.normSq.get 2 = basis.det ^ 2 := by
  rw [h.det_eq_ortho_det, h.det_ortho_sq]

theorem Orthogonalises.isOrthogonalisation (h : Orthogonalises basis g 3) :
    IsOrthogonalisation basis g where
  orthogonal i j hij := h.dot_eq_zero i.isLt j.isLt hij
  normSq_eq i := (h i i.isLt).normSq_eq
  normSq_pos i := (h i i.isLt).normSq_pos
  coeff_upper i j hij := (h i i.isLt).coeff_upper j hij
  recombine := h.toMatrix_eq
  normSq_prod := h.normSq_prod

/-- From scratch, the orthogonalisation refuses a degenerate vector or returns the
orthogonalisation of its basis. -/
theorem compute_cases (basis : Mat3 ℚ) (tol : ℚ) :
    (∃ c, compute basis tol = .error c ∧ c.kind = .degenerateLattice) ∨
      ∃ g, compute basis tol = .ok g ∧ IsOrthogonalisation basis g := by
  cases h : compute basis tol with
  | error c => exact .inl ⟨c, rfl, compute_error_kind h⟩
  | ok g => exact .inr ⟨g, rfl, (compute_orthogonalises h).isOrthogonalisation⟩

theorem ofLattice_eq (lattice : Mat3 ℚ) :
    ofLattice lattice =
      (compute lattice defaultTolerance).mapError fun c => .within .gramSchmidt (.ofCause c) := by
  simp only [ofLattice, validateFinite_rat]
  rfl

/-- The orthogonalisation refuses a degenerate vector or returns the orthogonalisation of its
basis, also through the public entry point; at tolerance zero it refuses exactly the singular
bases. -/
theorem orthogonalisation_correct (basis : Mat3 ℚ) (tol : ℚ) :
    ((∃ c, compute basis tol = .error c ∧ c.kind = .degenerateLattice) ∨
        ∃ g, compute basis tol = .ok g ∧ IsOrthogonalisation basis g) ∧
      ((∃ e, ofLattice basis = .error e ∧ e.kind = .degenerateLattice) ∨
        ∃ g, ofLattice basis = .ok g ∧ IsOrthogonalisation basis g) ∧
      ((∃ c, compute basis 0 = .error c) ↔ basis.det = 0) := by
  refine ⟨compute_cases basis tol, ?_, compute_error_iff_det_eq_zero⟩
  rw [ofLattice_eq]
  rcases compute_cases basis defaultTolerance with ⟨c, hc, hk⟩ | ⟨g, hg, hspec⟩
  · exact .inl ⟨_, by rw [hc]; rfl, by simpa using hk⟩
  · exact .inr ⟨g, by rw [hg]; rfl, hspec⟩

end CrystalLattice.Reduction.GramSchmidt
