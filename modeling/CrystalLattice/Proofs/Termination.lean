import CrystalLattice.Proofs.ReducedBasis
import CrystalLattice.Proofs.Unimodular

/-!
# Termination

The potential `‖b*₀‖² · ‖b*₀‖² ‖b*₁‖²`, scaled by the sixth power of a common denominator of the
lattice, is a natural number that size reduction keeps and every swap lowers for `δ ≤ 1`. So one
step budget suffices for every run (`reduction_terminates`).
-/

namespace CrystalLattice

namespace Vec3

theorem dot_add_right (u v w : Vec3 ℚ) : u.dot (v.add w) = u.dot v + u.dot w := by
  rw [dot_comm, dot_add_left, dot_comm v, dot_comm w]

theorem dot_scale_right (a : ℚ) (v w : Vec3 ℚ) : v.dot (w.scale a) = a * v.dot w := by
  rw [dot_comm, dot_scale_left, dot_comm]

end Vec3

namespace Mat3

def firstGramDet (b : Mat3 ℚ) : ℚ := b.r0.normSq

def secondGramDet (b : Mat3 ℚ) : ℚ := b.r0.normSq * b.r1.normSq - b.r0.dot b.r1 ^ 2

/-- The potential of a basis: the product of its first two Gram determinants. -/
def potential (b : Mat3 ℚ) : ℚ := b.firstGramDet * b.secondGramDet

def HasDenominator (D : ℕ) (b : Mat3 ℚ) : Prop := ∀ i j, ∃ n : ℤ, (D : ℚ) * b.get i j = n

theorem potential_nonneg (b : Mat3 ℚ) : 0 ≤ b.potential :=
  mul_nonneg (Vec3.normSq_nonneg _) (sub_nonneg.mpr (Vec3.dot_sq_le _ _))

/-- A rational matrix has a common denominator: the product of the denominators of its
entries. -/
theorem exists_hasDenominator (b : Mat3 ℚ) : ∃ D : ℕ, 0 < D ∧ b.HasDenominator D := by
  refine ⟨∏ i : Fin 3, ∏ j : Fin 3, (b.get i j).den,
    Finset.prod_pos fun i _ => Finset.prod_pos fun j _ => (b.get i j).den_pos, fun i j => ?_⟩
  obtain ⟨k, hk⟩ : (b.get i j).den ∣ ∏ i : Fin 3, ∏ j : Fin 3, (b.get i j).den :=
    (Finset.dvd_prod_of_mem (fun j => (b.get i j).den) (Finset.mem_univ j)).trans
      (Finset.dvd_prod_of_mem (fun i => ∏ j : Fin 3, (b.get i j).den) (Finset.mem_univ i))
  refine ⟨k * (b.get i j).num, ?_⟩
  rw [hk]
  push_cast
  linear_combination (k : ℚ) * (b.get i j).den_mul_eq_num

section Denominator

variable {D : ℕ} {b mapping lattice : Mat3 ℚ}

theorem HasDenominator.mul_left (hm : mapping.IsIntegral) (h : lattice.HasDenominator D) :
    (mapping.mul lattice).HasDenominator D := by
  intro i j
  obtain ⟨a0, ha0⟩ := hm i 0
  obtain ⟨a1, ha1⟩ := hm i 1
  obtain ⟨a2, ha2⟩ := hm i 2
  obtain ⟨l0, hl0⟩ := h 0 j
  obtain ⟨l1, hl1⟩ := h 1 j
  obtain ⟨l2, hl2⟩ := h 2 j
  refine ⟨a0 * l0 + a1 * l1 + a2 * l2, ?_⟩
  rw [get_mul]
  push_cast
  rw [← ha0, ← ha1, ← ha2, ← hl0, ← hl1, ← hl2]
  ring

theorem HasDenominator.dot_row (h : b.HasDenominator D) (i j : Fin 3) :
    ∃ n : ℤ, (D : ℚ) ^ 2 * (b.row i).dot (b.row j) = n := by
  obtain ⟨a0, ha0⟩ := h i 0
  obtain ⟨a1, ha1⟩ := h i 1
  obtain ⟨a2, ha2⟩ := h i 2
  obtain ⟨c0, hc0⟩ := h j 0
  obtain ⟨c1, hc1⟩ := h j 1
  obtain ⟨c2, hc2⟩ := h j 2
  simp only [get_def, Vec3.get_zero, Vec3.get_one, Vec3.get_two] at ha0 ha1 ha2 hc0 hc1 hc2
  refine ⟨a0 * c0 + a1 * c1 + a2 * c2, ?_⟩
  push_cast
  rw [← ha0, ← ha1, ← ha2, ← hc0, ← hc1, ← hc2, Vec3.dot_def]
  ring

theorem HasDenominator.exists_int_potential (h : b.HasDenominator D) :
    ∃ n : ℤ, (D : ℚ) ^ 6 * b.potential = n := by
  obtain ⟨g00, h00⟩ := h.dot_row 0 0
  obtain ⟨g01, h01⟩ := h.dot_row 0 1
  obtain ⟨g11, h11⟩ := h.dot_row 1 1
  simp only [row_zero, row_one] at h00 h01 h11
  refine ⟨g00 * (g00 * g11 - g01 ^ 2), ?_⟩
  push_cast
  rw [← h00, ← h01, ← h11, potential, firstGramDet, secondGramDet, Vec3.normSq_eq_dot,
    Vec3.normSq_eq_dot]
  ring

end Denominator

end Mat3

namespace Reduction

open GramSchmidt CrystalLattice.Vec3

section Potential

variable {basis : Mat3 ℚ} {g : GramSchmidt ℚ}

/-- An orthogonalised basis is its orthogonal vectors, each plus the combination of the ones
before it that its coefficients give. -/
theorem GramSchmidt.Orthogonalises.rows_eq (h : Orthogonalises basis g 3) :
    basis.r0 = g.ortho.r0 ∧ basis.r1 = g.ortho.r1.add (g.ortho.r0.scale g.coeff.r1.x) ∧
      basis.r2 = (g.ortho.r2.add (g.ortho.r0.scale g.coeff.r2.x)).add
        (g.ortho.r1.scale g.coeff.r2.y) := by
  have h0 := (h 0 (by decide)).decompose
  have h1 := (h 1 (by decide)).decompose
  have h2 := (h 2 (by decide)).decompose
  simp only [Mat3.row_zero, Mat3.row_one, Mat3.row_two] at h0 h1 h2
  refine ⟨?_, ?_, ?_⟩
  · rw [h0]
    ext <;> simp [projection]
  · rw [h1]
    ext <;> simp [projection]
  · rw [h2]
    ext <;> simp [projection] <;> ring

/-- The orthogonal vectors of an orthogonalised basis: their squared lengths and their
vanishing dot products. -/
theorem GramSchmidt.Orthogonalises.ortho_dots (h : Orthogonalises basis g 3) :
    g.ortho.r0.dot g.ortho.r0 = g.normSq.x ∧ g.ortho.r1.dot g.ortho.r1 = g.normSq.y ∧
      g.ortho.r2.dot g.ortho.r2 = g.normSq.z ∧ g.ortho.r1.dot g.ortho.r0 = 0 ∧
      g.ortho.r2.dot g.ortho.r0 = 0 ∧ g.ortho.r2.dot g.ortho.r1 = 0 :=
  ⟨(h 0 (by decide)).dot_self, (h 1 (by decide)).dot_self, (h 2 (by decide)).dot_self,
    (h 1 (by decide)).orthogonal 0 (by decide), (h 2 (by decide)).orthogonal 0 (by decide),
    (h 2 (by decide)).orthogonal 1 (by decide)⟩

theorem GramSchmidt.Orthogonalises.potential_eq (h : Orthogonalises basis g 3) :
    basis.potential = g.normSq.x * (g.normSq.x * g.normSq.y) := by
  obtain ⟨hr0, hr1, -⟩ := h.rows_eq
  obtain ⟨m0, m1, -, o10, -, -⟩ := h.ortho_dots
  simp only [Mat3.potential, Mat3.firstGramDet, Mat3.secondGramDet, hr0, hr1, normSq_eq_dot,
    dot_add_left, dot_add_right, dot_scale_left, dot_scale_right, dot_comm g.ortho.r0 g.ortho.r1,
    m0, m1, o10]
  ring

/-- Swapping the first pair makes `‖b*₁‖² + μ₁₀² ‖b*₀‖²` the first Gram determinant and keeps the
second. -/
theorem GramSchmidt.Orthogonalises.potential_swapRows_one_zero (h : Orthogonalises basis g 3) :
    (basis.swapRows 1 0).potential =
      (g.normSq.y + g.coeff.r1.x ^ 2 * g.normSq.x) * (g.normSq.x * g.normSq.y) := by
  obtain ⟨hr0, hr1, -⟩ := h.rows_eq
  obtain ⟨m0, m1, -, o10, -, -⟩ := h.ortho_dots
  have hs0 : (basis.swapRows 1 0).r0 = basis.r1 := by simpa using basis.row_swapRows_left 1 0
  have hs1 : (basis.swapRows 1 0).r1 = basis.r0 := by
    simpa using basis.row_swapRows_right (show (1 : Fin 3) ≠ 0 by decide)
  simp only [Mat3.potential, Mat3.firstGramDet, Mat3.secondGramDet, hs0, hs1, hr0, hr1,
    normSq_eq_dot, dot_add_left, dot_add_right, dot_scale_left, dot_scale_right,
    dot_comm g.ortho.r0 g.ortho.r1, m0, m1, o10]
  ring

/-- Swapping the second pair keeps the first Gram determinant and makes
`‖b*₀‖² (‖b*₂‖² + μ₂₁² ‖b*₁‖²)` the second. -/
theorem GramSchmidt.Orthogonalises.potential_swapRows_two_one (h : Orthogonalises basis g 3) :
    (basis.swapRows 2 1).potential =
      g.normSq.x * (g.normSq.x * (g.normSq.z + g.coeff.r2.y ^ 2 * g.normSq.y)) := by
  obtain ⟨hr0, -, hr2⟩ := h.rows_eq
  obtain ⟨m0, m1, m2, o10, o20, o21⟩ := h.ortho_dots
  have hs0 : (basis.swapRows 2 1).r0 = basis.r0 := by
    simpa using basis.row_swapRows_of_ne (show (0 : Fin 3) ≠ 2 by decide) (by decide)
  have hs1 : (basis.swapRows 2 1).r1 = basis.r2 := by simpa using basis.row_swapRows_left 2 1
  simp only [Mat3.potential, Mat3.firstGramDet, Mat3.secondGramDet, hs0, hs1, hr0, hr2,
    normSq_eq_dot, dot_add_left, dot_add_right, dot_scale_left, dot_scale_right,
    dot_comm g.ortho.r0 g.ortho.r1, dot_comm g.ortho.r0 g.ortho.r2, dot_comm g.ortho.r1 g.ortho.r2,
    m0, m1, m2, o10, o20, o21]
  ring

/-- A swap after a failed Lovász test lowers the potential, for `δ ≤ 1`. -/
theorem GramSchmidt.Orthogonalises.potential_swapRows_lt (h : Orthogonalises basis g 3)
    {δ : ℚ} (hδ : δ ≤ 1) {r lower : Fin 3} (hlower : lower.val + 1 = r.val)
    (hfail : g.normSq.get r <
      (δ - g.coeff.get r lower * g.coeff.get r lower) * g.normSq.get lower) :
    (basis.swapRows r lower).potential < basis.potential := by
  have hM0 : 0 < g.normSq.x := (h 0 (by decide)).normSq_pos
  have hM1 : 0 < g.normSq.y := (h 1 (by decide)).normSq_pos
  rw [h.potential_eq]
  fin_cases r <;> fin_cases lower <;> simp at hlower
  · -- the first pair: `‖b*₁‖² + μ₁₀² ‖b*₀‖² < δ ‖b*₀‖² ≤ ‖b*₀‖²`
    simp only [Fin.mk_one, Fin.zero_eta, Vec3.get_one, Vec3.get_zero, Mat3.get_def,
      Mat3.row_one] at hfail
    have hδM : δ * g.normSq.x ≤ g.normSq.x := mul_le_of_le_one_left hM0.le hδ
    have hnew : g.normSq.y + g.coeff.r1.x ^ 2 * g.normSq.x < g.normSq.x := by
      nlinarith
    show (basis.swapRows 1 0).potential < _
    rw [h.potential_swapRows_one_zero]
    exact mul_lt_mul_of_pos_right hnew (mul_pos hM0 hM1)
  · -- the second pair: `‖b*₂‖² + μ₂₁² ‖b*₁‖² < δ ‖b*₁‖² ≤ ‖b*₁‖²`
    simp only [Fin.reduceFinMk, Vec3.get_two, Vec3.get_one, Mat3.get_def, Mat3.row_two] at hfail
    have hδM : δ * g.normSq.y ≤ g.normSq.y := mul_le_of_le_one_left hM1.le hδ
    have hnew : g.normSq.z + g.coeff.r2.y ^ 2 * g.normSq.y < g.normSq.y := by
      nlinarith
    show (basis.swapRows 2 1).potential < _
    rw [h.potential_swapRows_two_one]
    exact mul_lt_mul_of_pos_left (mul_lt_mul_of_pos_left hnew hM0) hM0

end Potential

section Failures

variable {α : Type} [Scalar α] {e : Failure α}

theorem Mat3.validateFinite_error_kind {m : Mat3 α} (h : m.validateFinite = .error e) :
    e.kind = .nonFinite := by
  unfold Mat3.validateFinite at h
  split at h
  · cases h
    rfl
  · cases h

theorem Mat3.inverse_error_kind {m : Mat3 α} (h : m.inverse = .error e) :
    e.kind = .nonFinite ∨ e.kind = .singular := by
  unfold Mat3.inverse at h
  rcases bind_eq_error h with hv | ⟨u, -, hrest⟩
  · obtain ⟨e₀, he₀, rfl⟩ := mapError_eq_error hv
    exact .inl (by simpa using Mat3.validateFinite_error_kind he₀)
  · simp only at hrest
    split at hrest
    · cases hrest
      exact .inr rfl
    · split at hrest
      · cases hrest
      · cases hrest
        exact .inr rfl

/-- The check refuses its `δ` first and its slack second; past them it fails only on the basis
it is given, and never for a spent budget. -/
theorem checkReduced_error_cases {basis : Mat3 α} {δ s tol : α}
    (h : checkReduced basis δ s tol = .error e) :
    (deltaValid δ = false ∧ e = .within .check (.ofCause (.badDelta δ))) ∨
      (slackValid s = false ∧ e = .within .check (.ofCause (.badSlack s))) ∨
      (e.kind ≠ .optionViolation ∧ e.kind ≠ .divergence) := by
  obtain ⟨e₀, hb, rfl⟩ := mapError_eq_error h
  dsimp only at hb
  split at hb
  · rename_i hδ
    cases hb
    exact .inl ⟨by simpa using hδ, rfl⟩
  split at hb
  · rename_i hs
    cases hb
    exact .inr (.inl ⟨by simpa using hs, rfl⟩)
  refine .inr (.inr ?_)
  rw [Failure.kind_within]
  rcases bind_eq_error hb with h₃ | ⟨-, -, hb⟩
  · simp [Mat3.validateFinite_error_kind h₃]
  rcases bind_eq_error hb with h₄ | ⟨g, -, hb⟩
  · obtain ⟨c, hc, rfl⟩ := mapError_eq_error h₄
    simp [GramSchmidt.compute_error_kind hc]
  split at hb
  · cases hb
    simp [Failure.kind, Failure.ofCause, Cause.kind]
  · split at hb <;> cases hb
    simp [Failure.kind, Failure.ofCause, Cause.kind]

theorem checkReduced_error_kind {basis : Mat3 α} {δ s tol : α}
    (h : checkReduced basis δ s tol = .error e) : e.kind ≠ .divergence := by
  rcases checkReduced_error_cases h with ⟨-, rfl⟩ | ⟨-, rfl⟩ | ⟨-, hk⟩
  · simp [Cause.kind]
  · simp [Cause.kind]
  · exact hk

/-- Finishing fails where the rounded integer matrix does not invert, or where the check of the
basis fails. -/
theorem finish_error_cases {o : Options α} {p : Progress α} (h : finish o p = .error e) :
    (∃ e₀, p.mapping.round.inverse = .error e₀ ∧ e = .within .reduce e₀) ∨
      ∃ e₀, checkReduced p.basis o.delta checkSlack o.tolerance = .error e₀ ∧
        e = .within .reduce e₀ := by
  rcases bind_eq_error h with h₁ | ⟨inv, -, h₂⟩
  · exact .inl (mapError_eq_error h₁)
  · rcases bind_eq_error h₂ with h₃ | ⟨-, -, h₄⟩
    · exact .inr (mapError_eq_error h₃)
    · cases h₄

theorem finish_error_kind {o : Options α} {p : Progress α} (h : finish o p = .error e) :
    e.kind ≠ .divergence := by
  rcases finish_error_cases h with ⟨e₀, he₀, rfl⟩ | ⟨e₀, he₀, rfl⟩
  · rcases Mat3.inverse_error_kind he₀ with hk | hk <;> simp [hk]
  · simpa using checkReduced_error_kind he₀

/-- A step fails only where the refresh after a swap finds a degenerate vector. -/
theorem Progress.step_error_kind {o : Options α} {p : Progress α} {c : Cause α}
    (h : p.step o = .error c) : c.kind = .degenerateLattice := by
  by_cases hk : 2 ≤ p.k ∧ p.k ≤ 3
  · simp only [Progress.step, dif_pos hk] at h
    split at h
    · cases h
    · rcases bind_eq_error h with hg | ⟨gs, -, hpure⟩
      · exact GramSchmidt.refreshFrom_error_kind hg
      · cases hpure
  · simp only [Progress.step, dif_neg hk] at h
    cases h

theorem Options.ofSettings_fault_kind {settings : List (Setting α)} {c : Cause α}
    (h : (Options.ofSettings settings).fault = some c) : c.kind = .optionViolation := by
  have hfold : ∀ (l : List (Setting α)) (o : Options α),
      (∀ c, o.fault = some c → c.kind = .optionViolation) →
      ∀ c, (l.foldl Options.apply o).fault = some c → c.kind = .optionViolation := by
    intro l
    induction l with
    | nil => exact fun o ho => ho
    | cons s l ih =>
      intro o ho
      apply ih
      intro c hc
      cases s <;> simp only [Options.apply] at hc <;> (try split_ifs at hc) <;>
        first | exact ho c hc | (cases hc; rfl)
  exact hfold settings Options.default (fun c hc => by cases hc) c h

/-- No setting makes the Lovász parameter of the options invalid: one outside its range is
never applied. -/
theorem Options.deltaValid_foldl (l : List (Setting α)) (o : Options α)
    (h : deltaValid o.delta = true) : deltaValid (l.foldl Options.apply o).delta = true := by
  induction l generalizing o with
  | nil => exact h
  | cons s l ih =>
    apply ih
    cases s with
    | delta d =>
      simp only [Options.apply]
      split_ifs with hd
      · exact hd
      · exact h
    | maxSteps n =>
      simp only [Options.apply]
      split_ifs <;> exact h
    | tolerance t =>
      simp only [Options.apply]
      split_ifs <;> exact h
    | trace => exact h

end Failures

section Budget

variable {o : Options ℚ}

theorem lt_one_of_deltaValid {δ : ℚ} (h : deltaValid δ = true) : δ < 1 := by
  simp [deltaValid] at h
  exact h.2

/-- The Lovász parameter of exact options is below one: the default is `3/4`, and a value
outside `(1/4, 1)` is never applied. -/
theorem Options.ofSettings_delta_lt_one (settings : List (Setting ℚ)) :
    (Options.ofSettings settings).delta < 1 :=
  lt_one_of_deltaValid (Options.deltaValid_foldl settings _ (by
    simp [deltaValid, Options.default, defaultDelta]
    norm_num))

theorem Options.ofSettings_append_maxSteps {α : Type} [Scalar α] (settings : List (Setting α))
    {n : ℤ} (hn : 0 < n) :
    Options.ofSettings (settings ++ [.maxSteps n]) =
      { Options.ofSettings settings with maxSteps := n.toNat } := by
  simp [Options.ofSettings, List.foldl_append, Options.apply, not_le.mpr hn]

/-- How a run of the loop ends when its budget is not spent: with the pointer past the last
vector, or on a degenerate vector met by the refresh after a swap. -/
def LoopEnds {α : Type} (r : Except (Failure α) (Progress α)) : Prop :=
  (∃ p, r = .ok p ∧ 3 < p.k) ∨ ∃ e, r = .error e ∧ e.kind = .degenerateLattice

/-- A bound on the steps left: twice the potential scaled by `D⁶`, a natural number when `D`
is a denominator of the input lattice, plus the distance of the pointer from its end. -/
def Progress.measure (D : ℕ) (p : Progress ℚ) : ℕ :=
  2 * ⌊(D : ℚ) ^ 6 * p.basis.potential⌋₊ + (4 - p.k)

theorem natFloor_lt_natFloor {x y : ℚ} {a b : ℤ} (hx : x = a) (hy : y = b) (h0 : 0 ≤ x)
    (h : x < y) : ⌊x⌋₊ < ⌊y⌋₊ := by
  subst hx hy
  rw [← Int.floor_toNat, ← Int.floor_toNat, Int.floor_intCast, Int.floor_intCast]
  have hab : a < b := by exact_mod_cast h
  have ha : 0 ≤ a := by exact_mod_cast h0
  omega

theorem SameLattice.hasDenominator {D : ℕ} {lattice basis mapping : Mat3 ℚ}
    (h : SameLattice lattice basis mapping) (hden : lattice.HasDenominator D) :
    basis.HasDenominator D := by
  rw [h.basis_eq]
  exact hden.mul_left h.integral

variable {lattice : Mat3 ℚ} {D : ℕ}

/-- Every step of the loop lowers the measure, for `δ ≤ 1`. -/
theorem step_measure_lt (hden : lattice.HasDenominator D) (hD : 0 < D) (hδ : o.delta ≤ 1)
    {p p' : Progress ℚ} {ev : StepEvent} (hinv : LoopInvariant o.delta p)
    (hsame : SameLattice lattice p.basis p.mapping) (hk : p.k ≤ 3)
    (h : p.step o = .ok (p', ev)) : p'.measure D < p.measure D := by
  obtain ⟨r, lower, p₁, hr, hlower, hp₁, hcase⟩ := Progress.step_cases h ⟨hinv.k_ge, hk⟩
  have hred : ReducedFrom r { p with steps := p.steps + 1 } p₁ :=
    hp₁ ▸ Progress.sizeReduce_reducedFrom _ r
  have hk₁ : p₁.k = p.k := hred.k_eq
  have horth₁ : Orthogonalises p₁.basis p₁.gs 3 := hred.orthogonalises hinv.orthogonalises
  have hpot₁ : p₁.basis.potential = p.basis.potential := by
    rw [horth₁.potential_eq, hinv.orthogonalises.potential_eq, hred.normSq_eq]
  rcases hcase with ⟨-, rfl⟩ | ⟨hl, gs, -, rfl⟩
  · -- advance: the potential stays and the pointer moves up
    simp only [Progress.measure, hpot₁, hk₁]
    omega
  · -- swap: the scaled potential drops by at least one, the pointer by at most one
    have hsame₁ : SameLattice lattice p₁.basis p₁.mapping := hred.sameLattice hsame
    have hsame' := hsame₁.swapRows (Fin.ne_of_val_ne (by omega) : r ≠ lower)
    have hfail : p₁.gs.normSq.get r <
        (o.delta - p₁.gs.coeff.get r lower * p₁.gs.coeff.get r lower) * p₁.gs.normSq.get lower := by
      simpa [Progress.lovaszHolds] using hl
    have hD6 : (0 : ℚ) < (D : ℚ) ^ 6 := by positivity
    obtain ⟨a, ha⟩ := (hsame'.hasDenominator hden).exists_int_potential
    obtain ⟨b, hb⟩ := (hsame₁.hasDenominator hden).exists_int_potential
    have hfloor : ⌊(D : ℚ) ^ 6 * (p₁.basis.swapRows r lower).potential⌋₊ <
        ⌊(D : ℚ) ^ 6 * p₁.basis.potential⌋₊ :=
      natFloor_lt_natFloor ha hb (mul_nonneg hD6.le (Mat3.potential_nonneg _))
        (mul_lt_mul_of_pos_left (horth₁.potential_swapRows_lt hδ hlower hfail) hD6)
    simp only [Progress.measure, ← hpot₁]
    split_ifs <;> omega

/-- A run whose budget exceeds the measure never spends it: it ends with the pointer past the
last vector or on a degenerate vector. -/
theorem runSteps_ends (hden : lattice.HasDenominator D) (hD : 0 < D) (hδ : o.delta ≤ 1)
    (n : ℕ) : ∀ (p : Progress ℚ) (trace : Array StepEvent), LoopInvariant o.delta p →
      SameLattice lattice p.basis p.mapping → p.measure D < n →
      LoopEnds (runSteps o n p trace).2 := by
  induction n with
  | zero => intro p trace _ _ hlt; omega
  | succ n ih =>
    intro p trace hinv hsame hlt
    by_cases hk : 3 < p.k
    · rw [runSteps_of_lt hk]
      exact .inl ⟨p, rfl, hk⟩
    cases hs : p.step o with
    | error c =>
      rw [runSteps_succ_of_step_error (by omega) hs]
      exact .inr ⟨_, rfl, by simpa using Progress.step_error_kind hs⟩
    | ok q =>
      obtain ⟨p', ev⟩ := q
      rw [runSteps_succ_of_step (by omega) hs]
      have hdrop := step_measure_lt hden hD hδ hinv hsame (by omega) hs
      exact ih p' _ (step_loopInvariant hinv (by omega) hs) (step_sameLattice hsame hs)
        (by omega)

/-- For every rational lattice there is one step budget that suffices under every choice of
options with `δ ≤ 1`: started on the lattice with its orthogonalisation, the loop ends with the
pointer past the last vector or on a degenerate vector before the budget is spent. -/
theorem runSteps_eventually_ends (lattice : Mat3 ℚ) :
    ∃ N : ℕ, ∀ (o : Options ℚ) (gs : GramSchmidt ℚ), o.delta ≤ 1 →
      GramSchmidt.compute lattice o.tolerance = .ok gs → ∀ n, N ≤ n → ∀ trace,
        LoopEnds (runSteps o n ⟨lattice, Mat3.identity, gs, 2, 0, 0⟩ trace).2 := by
  obtain ⟨D, hD, hden⟩ := Mat3.exists_hasDenominator lattice
  refine ⟨2 * ⌊(D : ℚ) ^ 6 * lattice.potential⌋₊ + 3, fun o gs hδ hgs n hn trace => ?_⟩
  exact runSteps_ends hden hD hδ n _ trace (loopInvariant_start o.delta hgs)
    (SameLattice.start lattice) (by simp only [Progress.measure]; omega)

end Budget

/-- For every rational lattice and settings there is a budget `N` past which the loop ends and the
reduction never fails for having spent its budget. -/
theorem reduction_terminates (lattice : Mat3 ℚ) (settings : List (Setting ℚ)) :
    ∃ N : ℕ,
      (∀ gs, GramSchmidt.compute lattice (Options.ofSettings settings).tolerance = .ok gs →
        ∀ n, N ≤ n → ∀ trace, LoopEnds
          (runSteps (Options.ofSettings settings) n ⟨lattice, Mat3.identity, gs, 2, 0, 0⟩ trace).2) ∧
      ∀ n : ℤ, (N : ℤ) ≤ n → ∀ e,
        (reduce lattice (settings ++ [.maxSteps n])).result = .error e → e.kind ≠ .divergence := by
  obtain ⟨N, hN⟩ := runSteps_eventually_ends lattice
  have hδ := (Options.ofSettings_delta_lt_one settings).le
  refine ⟨N + 1, fun gs hgs n hn trace => hN _ gs hδ hgs n (by omega) trace,
    fun n hn e he => ?_⟩
  rw [reduce_result, Options.ofSettings_append_maxSteps settings (by omega)] at he
  simp only [runWith] at he
  split at he
  · -- a faulty setting
    rename_i c hc
    cases he
    simp [Options.ofSettings_fault_kind hc]
  split at he
  · -- a non-finite entry
    rename_i e₀ hv
    cases he
    simp [Mat3.validateFinite_error_kind hv]
  split at he
  · -- a degenerate input
    rename_i c hc
    cases he
    simp [GramSchmidt.compute_error_kind hc]
  rename_i gs hgs
  rcases hrun : runSteps { Options.ofSettings settings with maxSteps := n.toNat } n.toNat
    ⟨lattice, Mat3.identity, gs, 2, 0, 0⟩ #[] with ⟨trace, r⟩
  rw [hrun] at he
  have hends := hN { Options.ofSettings settings with maxSteps := n.toNat } gs hδ hgs n.toNat
    (by omega) #[]
  rw [hrun] at hends
  rcases hends with ⟨p, rfl, -⟩ | ⟨e', rfl, hk⟩
  · exact finish_error_kind he
  · cases he
    simp [hk]

end Reduction

end CrystalLattice
