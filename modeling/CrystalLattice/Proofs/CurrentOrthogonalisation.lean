import CrystalLattice.Proofs.Orthogonalisation
import CrystalLattice.Proofs.StepBudget

/-!
# The orthogonalisation the loop keeps

In exact arithmetic the in-place update of a size reduction and the refresh after a swap give
what a computation from scratch gives for the current basis (`loop_orthogonalisation_from_scratch`);
refreshing the swapped pair alone would leave the last row stale.
-/

namespace CrystalLattice

namespace Reduction

open GramSchmidt

namespace GramSchmidt

/-- `g` is what the orthogonalisation from scratch gives for `basis`: at tolerance zero it
returns `g`, and at any tolerance it returns `g` unless it refuses a degenerate vector. -/
structure FromScratch (basis : Mat3 ℚ) (g : GramSchmidt ℚ) : Prop where
  exact : compute basis 0 = .ok g
  any_tolerance : ∀ tol, compute basis tol = .ok g ∨
    ∃ c, compute basis tol = .error c ∧ c.kind = .degenerateLattice

variable {basis : Mat3 ℚ} {g g' : GramSchmidt ℚ} {tol : ℚ}

/-- A state that orthogonalises its basis is the one computed from scratch: the basis is
independent, so tolerance zero accepts it, and the orthogonalisation is unique. -/
theorem Orthogonalises.fromScratch (h : Orthogonalises basis g 3) : FromScratch basis g := by
  have hsame : ∀ {tol g'}, compute basis tol = .ok g' → g' = g :=
    fun hc => h.unique (compute_orthogonalises hc)
  obtain ⟨g₀, hg₀⟩ := compute_eq_ok_of_det_ne_zero h.det_ne_zero
  refine ⟨by rw [hg₀, hsame hg₀], fun tol => ?_⟩
  cases hc : compute basis tol with
  | error c => exact .inr ⟨c, rfl, compute_error_kind hc⟩
  | ok g' => exact .inl (by rw [hsame hc])

theorem fromScratch_iff : FromScratch basis g ↔ Orthogonalises basis g 3 :=
  ⟨fun h => compute_orthogonalises h.exact, Orthogonalises.fromScratch⟩

theorem refresh_congr {i : Fin 3} (ho : g'.ortho = g.ortho) (hm : g'.normSq = g.normSq)
    (hc : ∀ j, j ≠ i → g'.coeff.row j = g.coeff.row j) :
    g'.refresh basis tol i = g.refresh basis tol i := by
  have hp : ∀ c, g'.projection c i = g.projection c i :=
    fun c => projection_congr c fun j _ => by rw [ho]
  have hr : ∀ a, g'.coeffRow a i = g.coeffRow a i :=
    fun a => coeffRow_congr a (fun j _ => by rw [ho]) (fun j _ => by rw [hm])
  have hcoeff : ∀ c, g'.coeff.setRow i c = g.coeff.setRow i c := by
    intro c
    refine Mat3.eq_of_row_eq fun j => ?_
    by_cases hj : j = i
    · subst hj
      simp
    · rw [Mat3.row_setRow_of_ne _ _ hj, Mat3.row_setRow_of_ne _ _ hj, hc j hj]
  simp only [refresh, hp, hr, ho, hm, hcoeff]

theorem Orthogonalises.refresh_eq_self (h : Orthogonalises basis g 3) (i : Fin 3) :
    g.refresh basis 0 i = .ok g := by
  have hs := h i i.isLt
  have hprev : Orthogonalises basis g i := h.mono i.isLt.le
  have hortho := hs.ortho_row hprev
  have hcoeff := hs.coeff_row hprev
  have hpos := hs.normSq_pos
  simp only [refresh]
  rw [← hortho, ← hcoeff, ← hs.normSq_eq]
  simp [hpos.ne', not_le.mpr hpos, Mat3.setRow_row, Vec3.set_get]

/-- After the exchange of vectors `r` and `lower`, refreshing every row from `lower` on gives
the orthogonalisation of the exchanged basis, whatever tolerance the refresh uses. -/
theorem refreshFrom_swapRows_fromScratch {r lower : Fin 3} (hlower : lower < r)
    (h : Orthogonalises basis g 3)
    (hg' : g.refreshFrom (basis.swapRows r lower) tol lower.val = .ok g') :
    FromScratch (basis.swapRows r lower) g' :=
  ((refreshFrom_orthogonalises (h.swapRows hlower) hg').1).fromScratch

-- Refreshing the exchanged pair alone leaves the last row stale: after `(1, 1, 0)` and
-- `(1, 0, 0)` are exchanged, the last vector `(1, 0, 1)` keeps its coefficients `(1/2, 1)`
-- against the old orthogonal vectors, where against the new ones they are `(1, 0)`.
example :
    ((GramSchmidt.refresh
        ⟨⟨⟨1, 1, 0⟩, ⟨1 / 2, -1 / 2, 0⟩, ⟨0, 0, 1⟩⟩, ⟨2, 1 / 2, 1⟩,
          ⟨⟨0, 0, 0⟩, ⟨1 / 2, 0, 0⟩, ⟨1 / 2, 1, 0⟩⟩⟩
        (⟨⟨1, 0, 0⟩, ⟨1, 1, 0⟩, ⟨1, 0, 1⟩⟩ : Mat3 ℚ) 0 0).bind fun g =>
      g.refresh ⟨⟨1, 0, 0⟩, ⟨1, 1, 0⟩, ⟨1, 0, 1⟩⟩ 0 1) =
      .ok ⟨Mat3.identity, ⟨1, 1, 1⟩, ⟨⟨0, 0, 0⟩, ⟨1, 0, 0⟩, ⟨1 / 2, 1, 0⟩⟩⟩ := by
  with_unfolding_all rfl

end GramSchmidt

namespace Progress

variable {α : Type} [Scalar α] {o : Options α}

theorem afterSteps_preserves (o : Options α) (Inv : Progress α → Prop)
    (hstep : ∀ p p' ev, Inv p → p.k ≤ 3 → p.step o = .ok (p', ev) → Inv p') (n : ℕ) :
    ∀ p q : Progress α, Inv p → p.afterSteps o n = some q → Inv q := by
  induction n with
  | zero =>
    intro p q hp h
    cases h
    exact hp
  | succ n ih =>
    intro p q hp h
    by_cases hk : 3 < p.k
    · rw [afterSteps_succ_of_lt hk] at h
      cases h
    cases hs : p.step o with
    | error c =>
      rw [afterSteps_succ_of_step_error (by omega) hs] at h
      cases h
    | ok a =>
      obtain ⟨p₁, ev⟩ := a
      rw [afterSteps_succ_of_step (by omega) hs] at h
      exact ih p₁ q (hstep p p₁ ev hp (by omega) hs) h

/-- Subtracting `q` times a lower vector `i` from vector `r` updates the coefficients exactly as
a refresh of row `r` from the new basis would compute them, and leaves the orthogonalisation
of the new basis. -/
theorem subtractMultiple_refresh {p : Progress ℚ} {r i : Fin 3} (q : ℚ) (hi : i < r)
    (h : Orthogonalises p.basis p.gs 3) :
    p.gs.refresh (p.subtractMultiple r i q).basis 0 r = .ok (p.subtractMultiple r i q).gs ∧
      FromScratch (p.subtractMultiple r i q).basis (p.subtractMultiple r i q).gs := by
  have h' := subtractMultiple_orthogonalises q hi h
  have hsame : p.gs.refresh (p.subtractMultiple r i q).basis 0 r =
      (p.subtractMultiple r i q).gs.refresh (p.subtractMultiple r i q).basis 0 r :=
    refresh_congr rfl rfl fun j hj => (Mat3.row_setRow_of_ne _ _ hj).symm
  exact ⟨hsame.trans (h'.refresh_eq_self r), h'.fromScratch⟩

end Progress

variable {o : Options ℚ}

theorem afterSteps_loopInvariant {n : ℕ} {p q : Progress ℚ} (hinv : LoopInvariant o.delta p)
    (h : p.afterSteps o n = some q) : LoopInvariant o.delta q :=
  Progress.afterSteps_preserves o (LoopInvariant o.delta)
    (fun _ _ _ hp hk hs => step_loopInvariant hp hk hs) n p q hinv h

/-- At the head of every iteration of the loop and at its exit, the orthogonalisation the
reduction keeps is the one computed from scratch for its current basis. -/
theorem loop_orthogonalisation_from_scratch (o : Options ℚ) (lattice : Mat3 ℚ)
    (gs : GramSchmidt ℚ) (hgs : compute lattice o.tolerance = .ok gs) :
    (∀ (n : ℕ) (q : Progress ℚ),
        (⟨lattice, Mat3.identity, gs, 2, 0, 0⟩ : Progress ℚ).afterSteps o n = some q →
          FromScratch q.basis q.gs) ∧
      (∀ (budget : ℕ) (trace : Array StepEvent) (p : Progress ℚ),
        runSteps o budget ⟨lattice, Mat3.identity, gs, 2, 0, 0⟩ #[] = (trace, .ok p) →
          FromScratch p.basis p.gs) ∧
      (∀ (p : Progress ℚ) (r i : Fin 3) (q : ℚ), i < r → compute p.basis 0 = .ok p.gs →
        p.gs.refresh (p.subtractMultiple r i q).basis 0 r = .ok (p.subtractMultiple r i q).gs ∧
          FromScratch (p.subtractMultiple r i q).basis (p.subtractMultiple r i q).gs) ∧
      (∀ (basis : Mat3 ℚ) (g g' : GramSchmidt ℚ) (r lower : Fin 3) (tol : ℚ), lower < r →
        compute basis 0 = .ok g → g.refreshFrom (basis.swapRows r lower) tol lower.val = .ok g' →
          FromScratch (basis.swapRows r lower) g') := by
  have hstart := loopInvariant_start o.delta hgs
  refine ⟨fun n q hq => ?_, fun budget trace p hrun => ?_, fun p r i q hi hp => ?_,
    fun basis g g' r lower tol hlower hg hg' => ?_⟩
  · exact (afterSteps_loopInvariant hstart hq).orthogonalises.fromScratch
  · exact (runSteps_loopInvariant hstart hrun).1.orthogonalises.fromScratch
  · exact Progress.subtractMultiple_refresh q hi (compute_orthogonalises hp)
  · exact refreshFrom_swapRows_fromScratch hlower (compute_orthogonalises hg) hg'

/-- A lattice whose last vector projects on both vectors of an exchanged pair: at the first
step the pair is exchanged and every row from the first is refreshed, the last row's coefficients
change from `(1/2, 1)` to `(1, 0)`, and two size reductions end the run on the standard basis. -/
theorem staleLastRow_orthogonalisation_from_scratch :
    let lattice : Mat3 ℚ := ⟨⟨1, 1, 0⟩, ⟨1, 0, 0⟩, ⟨1, 0, 1⟩⟩
    let gs : GramSchmidt ℚ :=
      ⟨⟨⟨1, 1, 0⟩, ⟨1 / 2, -1 / 2, 0⟩, ⟨0, 0, 1⟩⟩, ⟨2, 1 / 2, 1⟩,
        ⟨⟨0, 0, 0⟩, ⟨1 / 2, 0, 0⟩, ⟨1 / 2, 1, 0⟩⟩⟩
    let swapped : Progress ℚ :=
      ⟨⟨⟨1, 0, 0⟩, ⟨1, 1, 0⟩, ⟨1, 0, 1⟩⟩, ⟨⟨0, 1, 0⟩, ⟨1, 0, 0⟩, ⟨0, 0, 1⟩⟩,
        ⟨Mat3.identity, ⟨1, 1, 1⟩, ⟨⟨0, 0, 0⟩, ⟨1, 0, 0⟩, ⟨1, 0, 0⟩⟩⟩, 2, 1, 1⟩
    let done : Progress ℚ :=
      ⟨Mat3.identity, ⟨⟨0, 1, 0⟩, ⟨1, -1, 0⟩, ⟨0, -1, 1⟩⟩,
        ⟨Mat3.identity, ⟨1, 1, 1⟩, Mat3.zero⟩, 4, 3, 1⟩
    compute lattice (Options.default : Options ℚ).tolerance = .ok gs ∧
      ((⟨lattice, Mat3.identity, gs, 2, 0, 0⟩ : Progress ℚ).afterSteps Options.default 1 =
          some swapped ∧ FromScratch swapped.basis swapped.gs) ∧
      (runSteps Options.default 3 ⟨lattice, Mat3.identity, gs, 2, 0, 0⟩ #[] =
          (#[⟨1, 2, .swap, 0, 1⟩, ⟨2, 2, .advance, 1, 1⟩, ⟨3, 3, .advance, 1, 1⟩], .ok done) ∧
        FromScratch done.basis done.gs) ∧
      (compute swapped.basis 0 = .ok swapped.gs ∧
        swapped.gs.refresh (swapped.subtractMultiple 1 0 1).basis 0 1 =
          .ok (swapped.subtractMultiple 1 0 1).gs ∧
        FromScratch (swapped.subtractMultiple 1 0 1).basis (swapped.subtractMultiple 1 0 1).gs) ∧
      (compute lattice 0 = .ok gs ∧
        gs.refreshFrom (lattice.swapRows 1 0) (Options.default : Options ℚ).tolerance 0 =
          .ok swapped.gs ∧
        FromScratch (lattice.swapRows 1 0) swapped.gs) := by
  intro lattice gs swapped done
  have hgs : compute (⟨⟨1, 1, 0⟩, ⟨1, 0, 0⟩, ⟨1, 0, 1⟩⟩ : Mat3 ℚ)
      (Options.default : Options ℚ).tolerance =
      .ok ⟨⟨⟨1, 1, 0⟩, ⟨1 / 2, -1 / 2, 0⟩, ⟨0, 0, 1⟩⟩, ⟨2, 1 / 2, 1⟩,
        ⟨⟨0, 0, 0⟩, ⟨1 / 2, 0, 0⟩, ⟨1 / 2, 1, 0⟩⟩⟩ := by
    with_unfolding_all rfl
  have hthm := loop_orthogonalisation_from_scratch Options.default lattice gs hgs
  have h₁ : Progress.step (Options.default : Options ℚ)
      ⟨⟨⟨1, 1, 0⟩, ⟨1, 0, 0⟩, ⟨1, 0, 1⟩⟩, Mat3.identity,
        ⟨⟨⟨1, 1, 0⟩, ⟨1 / 2, -1 / 2, 0⟩, ⟨0, 0, 1⟩⟩, ⟨2, 1 / 2, 1⟩,
          ⟨⟨0, 0, 0⟩, ⟨1 / 2, 0, 0⟩, ⟨1 / 2, 1, 0⟩⟩⟩, 2, 0, 0⟩ =
      .ok (⟨⟨⟨1, 0, 0⟩, ⟨1, 1, 0⟩, ⟨1, 0, 1⟩⟩, ⟨⟨0, 1, 0⟩, ⟨1, 0, 0⟩, ⟨0, 0, 1⟩⟩,
        ⟨Mat3.identity, ⟨1, 1, 1⟩, ⟨⟨0, 0, 0⟩, ⟨1, 0, 0⟩, ⟨1, 0, 0⟩⟩⟩, 2, 1, 1⟩,
        ⟨1, 2, .swap, 0, 1⟩) := by
    with_unfolding_all rfl
  have h₂ : Progress.step (Options.default : Options ℚ)
      ⟨⟨⟨1, 0, 0⟩, ⟨1, 1, 0⟩, ⟨1, 0, 1⟩⟩, ⟨⟨0, 1, 0⟩, ⟨1, 0, 0⟩, ⟨0, 0, 1⟩⟩,
        ⟨Mat3.identity, ⟨1, 1, 1⟩, ⟨⟨0, 0, 0⟩, ⟨1, 0, 0⟩, ⟨1, 0, 0⟩⟩⟩, 2, 1, 1⟩ =
      .ok (⟨⟨⟨1, 0, 0⟩, ⟨0, 1, 0⟩, ⟨1, 0, 1⟩⟩, ⟨⟨0, 1, 0⟩, ⟨1, -1, 0⟩, ⟨0, 0, 1⟩⟩,
        ⟨Mat3.identity, ⟨1, 1, 1⟩, ⟨⟨0, 0, 0⟩, ⟨0, 0, 0⟩, ⟨1, 0, 0⟩⟩⟩, 3, 2, 1⟩,
        ⟨2, 2, .advance, 1, 1⟩) := by
    with_unfolding_all rfl
  have h₃ : Progress.step (Options.default : Options ℚ)
      ⟨⟨⟨1, 0, 0⟩, ⟨0, 1, 0⟩, ⟨1, 0, 1⟩⟩, ⟨⟨0, 1, 0⟩, ⟨1, -1, 0⟩, ⟨0, 0, 1⟩⟩,
        ⟨Mat3.identity, ⟨1, 1, 1⟩, ⟨⟨0, 0, 0⟩, ⟨0, 0, 0⟩, ⟨1, 0, 0⟩⟩⟩, 3, 2, 1⟩ =
      .ok (⟨Mat3.identity, ⟨⟨0, 1, 0⟩, ⟨1, -1, 0⟩, ⟨0, -1, 1⟩⟩,
        ⟨Mat3.identity, ⟨1, 1, 1⟩, Mat3.zero⟩, 4, 3, 1⟩, ⟨3, 3, .advance, 1, 1⟩) := by
    with_unfolding_all rfl
  have hafter : (⟨lattice, Mat3.identity, gs, 2, 0, 0⟩ : Progress ℚ).afterSteps Options.default 1 =
      some swapped := by
    rw [Progress.afterSteps_succ_of_step (by decide) h₁, Progress.afterSteps_zero]
  have hrun : runSteps Options.default 3 ⟨lattice, Mat3.identity, gs, 2, 0, 0⟩ #[] =
      (#[⟨1, 2, .swap, 0, 1⟩, ⟨2, 2, .advance, 1, 1⟩, ⟨3, 3, .advance, 1, 1⟩], .ok done) := by
    rw [runSteps_succ_of_step (by decide) h₁, runSteps_succ_of_step (by decide) h₂,
      runSteps_succ_of_step (by decide) h₃, runSteps_of_lt (by decide)]
    rfl
  have hswapped : compute (⟨⟨1, 0, 0⟩, ⟨1, 1, 0⟩, ⟨1, 0, 1⟩⟩ : Mat3 ℚ) 0 =
      .ok ⟨Mat3.identity, ⟨1, 1, 1⟩, ⟨⟨0, 0, 0⟩, ⟨1, 0, 0⟩, ⟨1, 0, 0⟩⟩⟩ := by
    with_unfolding_all rfl
  have hzero : compute (⟨⟨1, 1, 0⟩, ⟨1, 0, 0⟩, ⟨1, 0, 1⟩⟩ : Mat3 ℚ) 0 =
      .ok ⟨⟨⟨1, 1, 0⟩, ⟨1 / 2, -1 / 2, 0⟩, ⟨0, 0, 1⟩⟩, ⟨2, 1 / 2, 1⟩,
        ⟨⟨0, 0, 0⟩, ⟨1 / 2, 0, 0⟩, ⟨1 / 2, 1, 0⟩⟩⟩ := by
    with_unfolding_all rfl
  have hrefresh : GramSchmidt.refreshFrom
      ⟨⟨⟨1, 1, 0⟩, ⟨1 / 2, -1 / 2, 0⟩, ⟨0, 0, 1⟩⟩, ⟨2, 1 / 2, 1⟩,
        ⟨⟨0, 0, 0⟩, ⟨1 / 2, 0, 0⟩, ⟨1 / 2, 1, 0⟩⟩⟩
      ((⟨⟨1, 1, 0⟩, ⟨1, 0, 0⟩, ⟨1, 0, 1⟩⟩ : Mat3 ℚ).swapRows 1 0)
      (Options.default : Options ℚ).tolerance 0 =
      .ok ⟨Mat3.identity, ⟨1, 1, 1⟩, ⟨⟨0, 0, 0⟩, ⟨1, 0, 0⟩, ⟨1, 0, 0⟩⟩⟩ := by
    with_unfolding_all rfl
  exact ⟨hgs, ⟨hafter, hthm.1 1 swapped hafter⟩, ⟨hrun, hthm.2.1 3 _ done hrun⟩,
    ⟨hswapped, hthm.2.2.1 swapped 1 0 1 (by decide) hswapped⟩,
    ⟨hzero, hrefresh, hthm.2.2.2 lattice gs swapped.gs 1 0 _ (by decide) hzero hrefresh⟩⟩

end Reduction

end CrystalLattice
