import CrystalLattice.Proofs.Exact
import CrystalLattice.Reduction.GramSchmidt

/-!
The orthogonalisation in exact arithmetic. A state orthogonalises a basis row by row: each
basis vector is its orthogonal part plus a combination of the orthogonal parts before it,
the orthogonal parts are pairwise orthogonal, and none of them is zero. Refreshing a row
establishes this for that row from the rows before it, so recomputing from any row on, or
from the start, yields a state that orthogonalises the whole basis. Such a state is unique:
every way of reaching it gives the same coefficients and squared lengths.
-/

namespace CrystalLattice.Reduction.GramSchmidt

open Vec3

/-- Row `i` of `g` orthogonalises row `i` of `basis` against the rows of `g` before it. -/
structure RowSpec (basis : Mat3 ℚ) (g : GramSchmidt ℚ) (i : Fin 3) : Prop where
  coeff_upper : ∀ j, i ≤ j → g.coeff.get i j = 0
  decompose : basis.row i = (g.ortho.row i).add (g.projection (g.coeff.row i) i)
  orthogonal : ∀ j, j < i → (g.ortho.row i).dot (g.ortho.row j) = 0
  normSq_eq : g.normSq.get i = (g.ortho.row i).normSq
  normSq_pos : 0 < g.normSq.get i

/-- The rows of `g` before `n` orthogonalise the rows of `basis` before `n`. -/
def Orthogonalises (basis : Mat3 ℚ) (g : GramSchmidt ℚ) (n : ℕ) : Prop :=
  ∀ i : Fin 3, i.val < n → RowSpec basis g i

section Congruence

variable {α : Type} [Scalar α] {basis : Mat3 α} {g g' : GramSchmidt α} {tol : α}

theorem projection_congr (c : Vec3 α) {i : Fin 3}
    (h : ∀ j, j < i → g'.ortho.row j = g.ortho.row j) :
    g'.projection c i = g.projection c i := by
  fin_cases i
  · rfl
  · have h0 := h 0 (by decide)
    simp only [Mat3.row_zero] at h0
    simp [projection, h0]
  · have h0 := h 0 (by decide)
    have h1 := h 1 (by decide)
    simp only [Mat3.row_zero, Mat3.row_one] at h0 h1
    simp [projection, h0, h1]

theorem coeffRow_congr (a : Vec3 α) {i : Fin 3}
    (ho : ∀ j, j < i → g'.ortho.row j = g.ortho.row j)
    (hm : ∀ j, j < i → g'.normSq.get j = g.normSq.get j) :
    g'.coeffRow a i = g.coeffRow a i := by
  simp only [coeffRow]
  congr 1
  funext j
  split_ifs with hj
  · rw [ho j hj, hm j hj]
  · rfl

/-- A refresh that succeeds replaces row `i` by the coefficients of the basis vector against
the orthogonal vectors before it, its residual, and the residual's squared length. -/
theorem refresh_eq_ok_state {i : Fin 3} (h : g.refresh basis tol i = .ok g') :
    g' = ⟨g.ortho.setRow i ((basis.row i).sub (g.projection (g.coeffRow (basis.row i) i) i)),
      g.normSq.set i ((basis.row i).sub (g.projection (g.coeffRow (basis.row i) i) i)).normSq,
      g.coeff.setRow i (g.coeffRow (basis.row i) i)⟩ := by
  simp only [refresh] at h
  split at h
  · cases h
  · cases h
    rfl

theorem refresh_row_of_ne {i j : Fin 3} (h : g.refresh basis tol i = .ok g') (hji : j ≠ i) :
    g'.ortho.row j = g.ortho.row j ∧ g'.coeff.row j = g.coeff.row j ∧
      g'.normSq.get j = g.normSq.get j := by
  obtain rfl := refresh_eq_ok_state h
  exact ⟨Mat3.row_setRow_of_ne _ _ hji, Mat3.row_setRow_of_ne _ _ hji, get_set_of_ne _ _ hji⟩

end Congruence

variable {basis basis' : Mat3 ℚ} {g g' : GramSchmidt ℚ} {tol : ℚ}

theorem RowSpec.congr {i : Fin 3} (hs : RowSpec basis g i) (hb : basis'.row i = basis.row i)
    (hc : g'.coeff.row i = g.coeff.row i) (ho : ∀ j, j ≤ i → g'.ortho.row j = g.ortho.row j)
    (hm : g'.normSq.get i = g.normSq.get i) : RowSpec basis' g' i where
  coeff_upper j hj := by
    rw [Mat3.get_def, hc, ← Mat3.get_def]
    exact hs.coeff_upper j hj
  decompose := by
    rw [hb, hc, ho i le_rfl, projection_congr _ fun j hj => ho j hj.le]
    exact hs.decompose
  orthogonal j hj := by
    rw [ho i le_rfl, ho j hj.le]
    exact hs.orthogonal j hj
  normSq_eq := by
    rw [hm, ho i le_rfl]
    exact hs.normSq_eq
  normSq_pos := hm ▸ hs.normSq_pos

theorem RowSpec.dot_self {i : Fin 3} (hs : RowSpec basis g i) :
    (g.ortho.row i).dot (g.ortho.row i) = g.normSq.get i :=
  hs.normSq_eq.symm

theorem Orthogonalises.dot_eq_zero {n : ℕ} (h : Orthogonalises basis g n) {i j : Fin 3}
    (hi : i.val < n) (hj : j.val < n) (hij : i ≠ j) :
    (g.ortho.row i).dot (g.ortho.row j) = 0 := by
  rcases lt_or_gt_of_ne hij with hlt | hgt
  · rw [dot_comm]
    exact (h j hj).orthogonal i hlt
  · exact (h i hi).orthogonal j hgt

theorem Orthogonalises.mono {m n : ℕ} (h : Orthogonalises basis g n) (hmn : m ≤ n) :
    Orthogonalises basis g m :=
  fun i hi => h i (lt_of_lt_of_le hi hmn)

/-- The residual of any vector after its projection on the orthogonal vectors before `i` is
orthogonal to each of them. -/
theorem residual_orthogonal {i : Fin 3} (hprev : Orthogonalises basis g i) (a : Vec3 ℚ)
    {j : Fin 3} (hj : j < i) :
    (a.sub (g.projection (g.coeffRow a i) i)).dot (g.ortho.row j) = 0 := by
  have h00 := fun h => (hprev 0 h).dot_self
  have h11 := fun h => (hprev 1 h).dot_self
  have hM0 := fun h => (hprev 0 h).normSq_pos.ne'
  have hM1 := fun h => (hprev 1 h).normSq_pos.ne'
  have h01 := fun h0 h1 => hprev.dot_eq_zero (i := 0) (j := 1) h0 h1 (by decide)
  fin_cases i <;> fin_cases j <;> simp at hj h00 h11 hM0 hM1 h01 <;>
    simp [projection, coeffRow, dot_sub_left, dot_add_left, dot_zero_left, dot_scale_left,
      h00, h11, h01, hM0, hM1, dot_comm g.ortho.r1 g.ortho.r0]

/-- In exact arithmetic the squared length a successful refresh records is not zero. -/
theorem refresh_eq_ok {i : Fin 3} (h : g.refresh basis tol i = .ok g') :
    g' = ⟨g.ortho.setRow i ((basis.row i).sub (g.projection (g.coeffRow (basis.row i) i) i)),
      g.normSq.set i ((basis.row i).sub (g.projection (g.coeffRow (basis.row i) i) i)).normSq,
      g.coeff.setRow i (g.coeffRow (basis.row i) i)⟩ ∧
    ((basis.row i).sub (g.projection (g.coeffRow (basis.row i) i) i)).normSq ≠ 0 := by
  simp only [refresh] at h
  split at h
  · cases h
  · rename_i hcheck
    cases h
    refine ⟨rfl, fun hzero => hcheck ?_⟩
    simp [hzero]

theorem refresh_rowSpec {i : Fin 3} (hprev : Orthogonalises basis g i)
    (h : g.refresh basis tol i = .ok g') : RowSpec basis g' i := by
  have hbelow : ∀ j, j < i → g'.ortho.row j = g.ortho.row j :=
    fun j hj => (refresh_row_of_ne h hj.ne).1
  obtain ⟨rfl, hm⟩ := refresh_eq_ok h
  refine ⟨fun j hj => ?_, ?_, fun j hj => ?_, ?_, ?_⟩
  · simp [Mat3.get_def, coeffRow, not_lt.mpr hj]
  · rw [Mat3.row_setRow_self, Mat3.row_setRow_self, projection_congr _ hbelow]
    ext <;> simp
  · rw [Mat3.row_setRow_self, hbelow j hj]
    exact residual_orthogonal hprev _ hj
  · simp
  · simpa using lt_of_le_of_ne (normSq_nonneg _) hm.symm

theorem refresh_orthogonalises {i : Fin 3} (hprev : Orthogonalises basis g i)
    (h : g.refresh basis tol i = .ok g') : Orthogonalises basis g' (i + 1) := by
  intro j hj
  rcases Nat.lt_succ_iff_lt_or_eq.mp hj with hlt | heq
  · obtain ⟨ho, hc, hm⟩ := refresh_row_of_ne h (Fin.ne_of_lt hlt)
    refine (hprev j hlt).congr rfl hc (fun l hl => ?_) hm
    exact (refresh_row_of_ne h (Fin.ne_of_lt (lt_of_le_of_lt hl hlt))).1
  · obtain rfl : j = i := Fin.ext heq
    exact refresh_rowSpec hprev h

/-- Refreshing from row `i` on, after the rows before `i`, orthogonalises the whole basis and
keeps the rows before `i`. -/
theorem refreshFrom_orthogonalises {i : ℕ} (hprev : Orthogonalises basis g i)
    (h : g.refreshFrom basis tol i = .ok g') :
    Orthogonalises basis g' 3 ∧ ∀ j : Fin 3, j.val < i →
      g'.ortho.row j = g.ortho.row j ∧ g'.coeff.row j = g.coeff.row j ∧
        g'.normSq.get j = g.normSq.get j := by
  induction g, i using refreshFrom.induct with
  | case1 g i hi ih =>
    rw [refreshFrom, dif_pos hi] at h
    obtain ⟨g₁, h₁, hrest⟩ := bind_eq_ok h
    obtain ⟨horth, hkeep⟩ := ih g₁ (refresh_orthogonalises (i := ⟨i, hi⟩) hprev h₁) hrest
    refine ⟨horth, fun j hj => ?_⟩
    obtain ⟨ho, hc, hm⟩ := hkeep j (by omega)
    obtain ⟨ho₁, hc₁, hm₁⟩ := refresh_row_of_ne h₁ (Fin.ne_of_lt (show j < ⟨i, hi⟩ from hj))
    exact ⟨ho.trans ho₁, hc.trans hc₁, hm.trans hm₁⟩
  | case2 g _ hi =>
    rw [refreshFrom, dif_neg hi] at h
    cases h
    exact ⟨hprev.mono (by omega), fun _ _ => ⟨rfl, rfl, rfl⟩⟩

theorem compute_orthogonalises (h : compute basis tol = .ok g) : Orthogonalises basis g 3 :=
  (refreshFrom_orthogonalises (fun _ hi => absurd hi (Nat.not_lt_zero _)) h).1

/-- The coefficients of a vector decomposed over the orthogonal vectors up to `i` are read
back by the projections that define them. -/
theorem coeffRow_of_decompose {i : Fin 3} (hprev : Orthogonalises basis g i)
    (hi : ∀ j, j < i → (g.ortho.row i).dot (g.ortho.row j) = 0) (c : Vec3 ℚ)
    (hc : ∀ j, i ≤ j → c.get j = 0) :
    g.coeffRow ((g.ortho.row i).add (g.projection c i)) i = c := by
  have h00 := fun h => (hprev 0 h).dot_self
  have h11 := fun h => (hprev 1 h).dot_self
  have hM0 := fun h => (hprev 0 h).normSq_pos.ne'
  have hM1 := fun h => (hprev 1 h).normSq_pos.ne'
  have h01 := fun h0 h1 => hprev.dot_eq_zero (i := 0) (j := 1) h0 h1 (by decide)
  have hi0 := hi 0
  have hi1 := hi 1
  have hc0 := hc 0
  have hc1 := hc 1
  have hc2 := hc 2 (Fin.le_last i)
  fin_cases i <;> simp at h00 h11 hM0 hM1 h01 hc0 hc1 hc2 hi0 hi1
  · ext <;> simp [coeffRow, hc0, hc1, hc2]
  · ext <;> simp [coeffRow, projection, dot_add_left, dot_scale_left, dot_zero_left, hc1, hc2,
      hi0, h00, hM0]
  · ext <;> simp [coeffRow, projection, dot_add_left, dot_scale_left, dot_zero_left, hc2,
      hi0, hi1, h00, h11, h01, hM0, hM1, dot_comm g.ortho.r1 g.ortho.r0]

theorem RowSpec.coeff_row {i : Fin 3} (hprev : Orthogonalises basis g i)
    (hs : RowSpec basis g i) : g.coeff.row i = g.coeffRow (basis.row i) i := by
  rw [hs.decompose]
  exact (coeffRow_of_decompose hprev hs.orthogonal _ fun j hj => hs.coeff_upper j hj).symm

theorem RowSpec.ortho_row {i : Fin 3} (hprev : Orthogonalises basis g i)
    (hs : RowSpec basis g i) :
    g.ortho.row i = (basis.row i).sub (g.projection (g.coeffRow (basis.row i) i) i) := by
  rw [← hs.coeff_row hprev, hs.decompose]
  ext <;> simp

theorem Orthogonalises.row_eq (h : Orthogonalises basis g 3) (h' : Orthogonalises basis g' 3)
    (n : ℕ) : ∀ i : Fin 3, i.val < n → g'.ortho.row i = g.ortho.row i ∧
      g'.coeff.row i = g.coeff.row i ∧ g'.normSq.get i = g.normSq.get i := by
  induction n with
  | zero => exact fun i hi => absurd hi (Nat.not_lt_zero _)
  | succ n ih =>
    intro i hi
    rcases Nat.lt_succ_iff_lt_or_eq.mp hi with hlt | hn
    · exact ih i hlt
    · -- the rows before `i` agree, and row `i` is computed from them alone
      have ho : ∀ j, j < i → g'.ortho.row j = g.ortho.row j :=
        fun j hj => (ih j (hn ▸ hj)).1
      have hm : ∀ j, j < i → g'.normSq.get j = g.normSq.get j :=
        fun j hj => (ih j (hn ▸ hj)).2.2
      have hs := h i i.isLt
      have hs' := h' i i.isLt
      have hprev := h.mono i.isLt.le
      have hprev' := h'.mono i.isLt.le
      have hortho : g'.ortho.row i = g.ortho.row i := by
        rw [hs'.ortho_row hprev', hs.ortho_row hprev, coeffRow_congr _ ho hm,
          projection_congr _ ho]
      refine ⟨hortho, ?_, ?_⟩
      · rw [hs'.coeff_row hprev', hs.coeff_row hprev, coeffRow_congr _ ho hm]
      · rw [hs'.normSq_eq, hs.normSq_eq, hortho]

/-- The orthogonalisation of a basis is unique. -/
theorem Orthogonalises.unique (h : Orthogonalises basis g 3) (h' : Orthogonalises basis g' 3) :
    g' = g := by
  have hrow := h.row_eq h' 3
  obtain ⟨o0, c0, m0⟩ := hrow 0 (by decide)
  obtain ⟨o1, c1, m1⟩ := hrow 1 (by decide)
  obtain ⟨o2, c2, m2⟩ := hrow 2 (by decide)
  obtain ⟨ortho, normSq, coeff⟩ := g
  obtain ⟨ortho', normSq', coeff'⟩ := g'
  simp only at o0 c0 m0 o1 c1 m1 o2 c2 m2
  have hortho : ortho' = ortho := Mat3.ext o0 o1 o2
  have hcoeff : coeff' = coeff := Mat3.ext c0 c1 c2
  have hnormSq : normSq' = normSq := Vec3.ext m0 m1 m2
  rw [hortho, hcoeff, hnormSq]

section Failures

variable {α : Type} [Scalar α] {basis : Mat3 α} {g : GramSchmidt α} {tol : α} {c : Cause α}

theorem refresh_error_kind {i : Fin 3} (h : g.refresh basis tol i = .error c) :
    c.kind = .degenerateLattice := by
  simp only [refresh] at h
  split at h
  · cases h
    rfl
  · cases h

theorem refreshFrom_error_kind {i : ℕ} (h : g.refreshFrom basis tol i = .error c) :
    c.kind = .degenerateLattice := by
  induction g, i using refreshFrom.induct with
  | case1 g i hi ih =>
    rw [refreshFrom, dif_pos hi] at h
    cases hr : g.refresh basis tol ⟨i, hi⟩ with
    | error c' =>
      rw [hr] at h
      cases h
      exact refresh_error_kind hr
    | ok g₁ =>
      rw [hr] at h
      exact ih g₁ h
  | case2 g _ hi =>
    rw [refreshFrom, dif_neg hi] at h
    cases h

theorem compute_error_kind (h : compute basis tol = .error c) : c.kind = .degenerateLattice :=
  refreshFrom_error_kind h

end Failures

section Rows

variable {α : Type} [Scalar α]

theorem refreshFrom_of_lt (g : GramSchmidt α) (basis : Mat3 α) (tol : α) {i : ℕ} (h : i < 3) :
    g.refreshFrom basis tol i =
      (g.refresh basis tol ⟨i, h⟩).bind fun g => g.refreshFrom basis tol (i + 1) := by
  rw [refreshFrom, dif_pos h]
  rfl

/-- The orthogonalisation refreshes the three rows in order: with the recursion unrolled, it
evaluates on concrete bases. -/
theorem compute_eq_refresh (basis : Mat3 α) (tol : α) :
    compute basis tol = (do
      let g ← empty.refresh basis tol 0
      let g ← g.refresh basis tol 1
      g.refresh basis tol 2) := by
  have hlast (g : GramSchmidt α) : g.refreshFrom basis tol 2 = g.refresh basis tol 2 := by
    rw [refreshFrom_of_lt _ _ _ (show 2 < 3 by decide)]
    change (g.refresh basis tol 2).bind _ = _
    cases g.refresh basis tol 2 with
    | error c => rfl
    | ok g' =>
      change g'.refreshFrom basis tol 3 = _
      rw [refreshFrom, dif_neg (by decide)]
  simp only [compute, refreshFrom_of_lt _ _ _ (show 0 < 3 by decide),
    refreshFrom_of_lt _ _ _ (show 1 < 3 by decide), hlast]
  rfl

end Rows

section Recurrence

variable {α : Type} [Scalar α] {basis basis' : Mat3 α} {g g' : GramSchmidt α} {tol : α}

/-- Row `i` of `g` is what a refresh of row `i` computes from the rows of `g` before it. -/
structure RowRecurrence (basis : Mat3 α) (g : GramSchmidt α) (i : Fin 3) : Prop where
  coeff_row : g.coeff.row i = g.coeffRow (basis.row i) i
  ortho_row : g.ortho.row i = (basis.row i).sub (g.projection (g.coeff.row i) i)
  normSq_get : g.normSq.get i = (g.ortho.row i).normSq

/-- The rows of `g` before `n` follow the recurrence of the orthogonalisation of `basis`, in
whatever arithmetic computed them. -/
def Recurrent (basis : Mat3 α) (g : GramSchmidt α) (n : ℕ) : Prop :=
  ∀ i : Fin 3, i.val < n → RowRecurrence basis g i

theorem RowRecurrence.congr {i : Fin 3} (hs : RowRecurrence basis g i)
    (hb : basis'.row i = basis.row i) (hc : g'.coeff.row i = g.coeff.row i)
    (ho : ∀ j, j ≤ i → g'.ortho.row j = g.ortho.row j)
    (hm : ∀ j, j ≤ i → g'.normSq.get j = g.normSq.get j) : RowRecurrence basis' g' i where
  coeff_row := by
    rw [hc, hb, coeffRow_congr _ (fun j hj => ho j hj.le) (fun j hj => hm j hj.le)]
    exact hs.coeff_row
  ortho_row := by
    rw [ho i le_rfl, hb, hc, projection_congr _ fun j hj => ho j hj.le]
    exact hs.ortho_row
  normSq_get := by
    rw [hm i le_rfl, ho i le_rfl]
    exact hs.normSq_get

theorem refresh_rowRecurrence {i : Fin 3} (h : g.refresh basis tol i = .ok g') :
    RowRecurrence basis g' i := by
  have ho : ∀ j, j < i → g'.ortho.row j = g.ortho.row j :=
    fun j hj => (refresh_row_of_ne h hj.ne).1
  have hm : ∀ j, j < i → g'.normSq.get j = g.normSq.get j :=
    fun j hj => (refresh_row_of_ne h hj.ne).2.2
  have hc := coeffRow_congr (basis.row i) ho hm
  have hp := projection_congr (g.coeffRow (basis.row i) i) ho
  obtain rfl := refresh_eq_ok_state h
  refine ⟨?_, ?_, ?_⟩
  · rw [Mat3.row_setRow_self, hc]
  · rw [Mat3.row_setRow_self, Mat3.row_setRow_self, hp]
  · rw [Vec3.get_set_self, Mat3.row_setRow_self]

theorem refresh_recurrent {i : Fin 3} (hprev : Recurrent basis g i)
    (h : g.refresh basis tol i = .ok g') : Recurrent basis g' (i + 1) := by
  intro j hj
  rcases Nat.lt_succ_iff_lt_or_eq.mp hj with hlt | heq
  · obtain ⟨-, hc, -⟩ := refresh_row_of_ne h (Fin.ne_of_lt hlt)
    refine (hprev j hlt).congr rfl hc (fun l hl => ?_) (fun l hl => ?_)
    · exact (refresh_row_of_ne h (Fin.ne_of_lt (lt_of_le_of_lt hl hlt))).1
    · exact (refresh_row_of_ne h (Fin.ne_of_lt (lt_of_le_of_lt hl hlt))).2.2
  · obtain rfl : j = i := Fin.ext heq
    exact refresh_rowRecurrence h

/-- Refreshing from row `i` on, after rows before `i` that follow the recurrence, leaves every
row following it. -/
theorem refreshFrom_recurrent {i : ℕ} (hprev : Recurrent basis g i)
    (h : g.refreshFrom basis tol i = .ok g') : Recurrent basis g' 3 := by
  induction g, i using refreshFrom.induct with
  | case1 g i hi ih =>
    rw [refreshFrom, dif_pos hi] at h
    obtain ⟨g₁, h₁, hrest⟩ := bind_eq_ok h
    exact ih g₁ (refresh_recurrent (i := ⟨i, hi⟩) hprev h₁) hrest
  | case2 g _ hi =>
    rw [refreshFrom, dif_neg hi] at h
    cases h
    exact fun j hj => hprev j (by omega)

theorem compute_recurrent (h : compute basis tol = .ok g) : Recurrent basis g 3 :=
  refreshFrom_recurrent (fun _ hi => absurd hi (Nat.not_lt_zero _)) h

end Recurrence

end CrystalLattice.Reduction.GramSchmidt
