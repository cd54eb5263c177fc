import Mathlib
import CrystalLattice.Proofs.Binary64Order
import CrystalLattice.Proofs.MinimumImageSymmetry
import CrystalLattice.Proofs.Binary64Scaling

/-!
# Reduced bases are fixed points

A basis whose orthogonalisation passes the loop's tests is returned unchanged with the identity
matrix. In binary64 the check with slack zero tests the negations of the loop's tests, so a
basis it accepts with a finite orthogonalisation is a fixed point (`reduce_of_checkReduced`);
with a NaN coefficient it is not (`nanCoefficient_passes_check_swaps`).
-/

namespace CrystalLattice.Reduction

open GramSchmidt

section Loop

variable {α : Type} [Scalar α]

/-- The loop's tests on an orthogonalisation, all passed: every coefficient below the diagonal
is at most one half in size, and each consecutive pair satisfies the Lovász condition. -/
structure PassesLoopTests (δ : α) (g : GramSchmidt α) : Prop where
  size : ∀ i j : Fin 3, j < i → Scalar.le (Scalar.abs (g.coeff.get i j)) 0.5 = true
  lovasz : ∀ i lower : Fin 3, lower.val + 1 = i.val →
    Scalar.le (lovaszBound g δ i lower) (g.normSq.get i) = true

namespace Progress

variable {p : Progress α}

theorem reduceAgainst_of_small {r i : Fin 3} (n : ℕ)
    (h : Scalar.le (Scalar.abs (p.gs.coeff.get r i)) 0.5 = true) :
    reduceAgainst r (p, n) i = (p, n) := by
  simp only [reduceAgainst, h, if_true]

theorem sizeReduce_of_small {r : Fin 3}
    (h : ∀ j, j < r → Scalar.le (Scalar.abs (p.gs.coeff.get r j)) 0.5 = true) :
    p.sizeReduce r = (p, 0) := by
  have hfold : ∀ l : List (Fin 3), (∀ i ∈ l, i < r) →
      l.foldl (reduceAgainst r) (p, 0) = (p, 0) := by
    intro l
    induction l with
    | nil => exact fun _ => rfl
    | cons i l ih =>
      intro hl
      rw [List.foldl_cons, reduceAgainst_of_small 0 (h i (hl i List.mem_cons_self))]
      exact ih fun j hj => hl j (List.mem_cons_of_mem i hj)
  exact hfold (below r) fun _ => below_lt

/-- On an orthogonalisation that passes the loop's tests, a step only advances the pointer: it
subtracts nothing and swaps nothing. -/
theorem step_of_passesLoopTests {o : Options α} (hk : 2 ≤ p.k ∧ p.k ≤ 3)
    (h : PassesLoopTests o.delta p.gs) :
    p.step o = .ok ({ p with steps := p.steps + 1, k := p.k + 1 },
      ⟨p.steps + 1, p.k, .advance, 0, p.swaps⟩) := by
  have hsr : ({ p with steps := p.steps + 1 } : Progress α).sizeReduce ⟨p.k - 1, by omega⟩ =
      ({ p with steps := p.steps + 1 }, 0) :=
    sizeReduce_of_small fun j hj => h.size _ j hj
  have hl : ({ p with steps := p.steps + 1 } : Progress α).lovaszHolds o.delta
      ⟨p.k - 1, by omega⟩ ⟨p.k - 2, by omega⟩ = true :=
    h.lovasz _ _ (by simp only; omega)
  simp only [step, dif_pos hk, hsr, hl, if_true]

end Progress

/-- From an orthogonalisation that passes the loop's tests, a run advances twice and stops. -/
theorem runSteps_of_passesLoopTests {o : Options α} {basis mapping : Mat3 α} {gs : GramSchmidt α}
    (hbudget : 2 ≤ o.maxSteps) (h : PassesLoopTests o.delta gs) :
    runSteps o o.maxSteps ⟨basis, mapping, gs, 2, 0, 0⟩ #[] =
      (#[⟨1, 2, .advance, 0, 0⟩, ⟨2, 3, .advance, 0, 0⟩], .ok ⟨basis, mapping, gs, 4, 2, 0⟩) := by
  obtain ⟨n, hn⟩ : ∃ n, o.maxSteps = n + 2 := ⟨o.maxSteps - 2, by omega⟩
  rw [hn, runSteps_succ_of_step (by simp) (Progress.step_of_passesLoopTests (by simp) h),
    runSteps_succ_of_step (by simp) (Progress.step_of_passesLoopTests (by simp) h),
    runSteps_of_lt (by simp)]
  rfl

theorem runSteps_trace_append (o : Options α) (budget : ℕ) :
    ∀ (p : Progress α) (trace : Array StepEvent),
      ∃ rest, (runSteps o budget p trace).1 = trace ++ rest := by
  induction budget with
  | zero =>
    intro p trace
    refine ⟨#[], ?_⟩
    by_cases hk : 3 < p.k <;> simp [runSteps, hk]
  | succ n ih =>
    intro p trace
    by_cases hk : 3 < p.k
    · exact ⟨#[], by simp [runSteps, hk]⟩
    cases hs : p.step o with
    | error c => exact ⟨#[], by simp [runSteps, hk, hs]⟩
    | ok a =>
      obtain ⟨p', ev⟩ := a
      obtain ⟨rest, hrest⟩ := ih p' (trace.push ev)
      refine ⟨#[ev] ++ rest, ?_⟩
      rw [runSteps_succ_of_step (by omega) hs, hrest, Array.push_eq_append, Array.append_assoc]

theorem runWith_trace_first {o : Options α} {lattice : Mat3 α} {ev : StepEvent}
    (hf : o.fault = none) (hv : lattice.validateFinite = .ok ()) (hbudget : 1 ≤ o.maxSteps)
    (h : (compute lattice o.tolerance).bind
      (fun g => (Progress.step o ⟨lattice, Mat3.identity, g, 2, 0, 0⟩).map Prod.snd) = .ok ev) :
    ∃ rest, (runWith o lattice).1 = #[ev] ++ rest := by
  obtain ⟨g, hg, hmap⟩ := bind_eq_ok h
  obtain ⟨p', hstep⟩ : ∃ p', Progress.step o ⟨lattice, Mat3.identity, g, 2, 0, 0⟩ = .ok (p', ev) := by
    cases hs : Progress.step o ⟨lattice, Mat3.identity, g, 2, 0, 0⟩ with
    | error c => simp [hs, Except.map] at hmap
    | ok a =>
      simp only [hs, Except.map, Except.ok.injEq] at hmap
      exact ⟨a.1, by rw [← hmap]⟩
  obtain ⟨n, hn⟩ : ∃ n, o.maxSteps = n + 1 := ⟨o.maxSteps - 1, by omega⟩
  simp only [runWith, hf, hv, hg, hn, runSteps_succ_of_step (by simp) hstep]
  exact runSteps_trace_append o n p' _

theorem reduce_trace (lattice : Mat3 α) (settings : List (Setting α)) :
    (reduce lattice settings).trace = if (Options.ofSettings settings).trace then
      some (runWith (Options.ofSettings settings) lattice).1 else none := rfl

/-- Finishing with the identity matrix returns the basis, the identity matrix and its inverse,
once the closing check passes, in an arithmetic where the identity rounds and inverts to
itself. -/
theorem finish_identity {o : Options α} {p : Progress α} (hm : p.mapping = Mat3.identity)
    (hround : (Mat3.identity : Mat3 α).round = Mat3.identity)
    (hinv : (Mat3.identity : Mat3 α).inverse = .ok Mat3.identity)
    (hcheck : checkReduced p.basis o.delta checkSlack o.tolerance = .ok ()) :
    finish o p = .ok ⟨p.basis, Mat3.identity, Mat3.identity, p.steps, p.swaps⟩ := by
  simp only [finish, hm, hround, hinv, hcheck, Except.mapError, bind, Except.bind, pure,
    Except.pure]

/-- A reduction that starts on an orthogonalisation passing the loop's tests returns its input
with the identity matrix after two advances, once its closing check passes. -/
theorem runWith_of_passesLoopTests {o : Options α} {lattice : Mat3 α} {g : GramSchmidt α}
    (hf : o.fault = none) (hbudget : 2 ≤ o.maxSteps) (hv : lattice.validateFinite = .ok ())
    (hg : compute lattice o.tolerance = .ok g) (h : PassesLoopTests o.delta g)
    (hround : (Mat3.identity : Mat3 α).round = Mat3.identity)
    (hinv : (Mat3.identity : Mat3 α).inverse = .ok Mat3.identity)
    (hcheck : checkReduced lattice o.delta checkSlack o.tolerance = .ok ()) :
    runWith o lattice = (#[⟨1, 2, .advance, 0, 0⟩, ⟨2, 3, .advance, 0, 0⟩],
      .ok ⟨lattice, Mat3.identity, Mat3.identity, 2, 0⟩) := by
  have hfinish := finish_identity (o := o) (p := ⟨lattice, Mat3.identity, g, 4, 2, 0⟩) rfl hround
    hinv hcheck
  simp only [runWith, hf, hv, hg, runSteps_of_passesLoopTests hbudget h, Except.bind, hfinish]

end Loop

section Check

variable {α : Type} [Scalar α] {basis : Mat3 α} {δ s tol : α} {g : GramSchmidt α}

/-- The check passes exactly when its arguments are valid, the basis is finite and can be
orthogonalised, and neither a coefficient nor a pair is reported. -/
theorem checkReduced_eq_ok_iff :
    checkReduced basis δ s tol = .ok () ↔ deltaValid δ = true ∧ slackValid s = true ∧
      basis.validateFinite = .ok () ∧ ∃ g, compute basis tol = .ok g ∧
        oversizedCoeff? g s = none ∧ lovaszFailure? g δ s = none := by
  unfold checkReduced
  cases hδ : deltaValid δ
  · simp [bind, Except.bind, Except.mapError, throw, throwThe, MonadExceptOf.throw]
  cases hs : slackValid s
  · simp [bind, Except.bind, Except.mapError, throw, throwThe, MonadExceptOf.throw]
  cases hv : basis.validateFinite
  · simp [bind, Except.bind, Except.mapError]
  cases hc : compute basis tol with
  | error c => simp [bind, Except.bind, Except.mapError]
  | ok g' =>
    rcases ho : oversizedCoeff? g' s with _ | ⟨i, j⟩ <;>
      rcases hl : lovaszFailure? g' δ s with _ | ⟨lower, i'⟩ <;>
      simp [ho, hl, Except.mapError, bind, Except.bind, throw, throwThe, MonadExceptOf.throw, pure,
        Except.pure]

theorem oversizedCoeff?_eq_none_iff :
    oversizedCoeff? g s = none ↔
      ∀ i j : Fin 3, j < i → Scalar.lt (0.5 + s) (Scalar.abs (g.coeff.get i j)) = false := by
  simp only [oversizedCoeff?, List.find?_eq_none, List.mem_cons, List.mem_nil_iff, or_false]
  constructor
  · intro h i j hji
    fin_cases i <;> fin_cases j <;> simp_all
  · intro h
    simp [h 1 0 (by decide), h 2 0 (by decide), h 2 1 (by decide)]

theorem lovaszFailure?_eq_none_iff :
    lovaszFailure? g δ s = none ↔ ∀ i lower : Fin 3, lower.val + 1 = i.val →
      Scalar.lt (g.normSq.get i) (lovaszBound g δ i lower * (Scalar.one - s)) = false := by
  simp only [lovaszFailure?, List.find?_eq_none, List.mem_cons, List.mem_nil_iff, or_false]
  constructor
  · intro h i lower hi
    fin_cases i <;> fin_cases lower <;> simp_all
  · intro h
    simpa using ⟨h 1 0 rfl, h 2 1 rfl⟩

end Check

namespace GramSchmidt

section Recorded

variable {α : Type} [Scalar α] {basis : Mat3 α} {g g' : GramSchmidt α} {tol : α}

def IsFinite (g : GramSchmidt α) : Prop :=
  (∀ i j : Fin 3, Scalar.isFinite (g.coeff.get i j) = true) ∧
    ∀ i : Fin 3, Scalar.isFinite (g.normSq.get i) = true

instance (g : GramSchmidt α) : Decidable g.IsFinite := by
  unfold IsFinite
  infer_instance

theorem refresh_normSq {i : Fin 3} (h : g.refresh basis tol i = .ok g') :
    ∃ v : Vec3 α, Scalar.eq v.normSq Scalar.zero = false ∧
      g'.normSq = g.normSq.set i v.normSq := by
  simp only [refresh] at h
  split at h
  · cases h
  · rename_i hcheck
    cases h
    simp only [Bool.or_eq_true, not_or, Bool.not_eq_true] at hcheck
    exact ⟨_, hcheck.2, rfl⟩

/-- A property of every squared length that passes the zero test holds of every squared length
recorded by a refresh from row `i` on, once it holds of the rows before `i`. -/
theorem refreshFrom_normSq {P : α → Prop}
    (hP : ∀ v : Vec3 α, Scalar.eq v.normSq Scalar.zero = false → P v.normSq) {i : ℕ}
    (hprev : ∀ j : Fin 3, j.val < i → P (g.normSq.get j))
    (h : g.refreshFrom basis tol i = .ok g') (j : Fin 3) : P (g'.normSq.get j) := by
  induction g, i using refreshFrom.induct with
  | case1 g i hi ih =>
    rw [refreshFrom, dif_pos hi] at h
    obtain ⟨g₁, h₁, hrest⟩ := bind_eq_ok h
    obtain ⟨v, hv, hset⟩ := refresh_normSq h₁
    refine ih g₁ (fun l hl => ?_) hrest
    rw [hset]
    by_cases hli : l = ⟨i, hi⟩
    · rw [hli, Vec3.get_set_self]
      exact hP v hv
    · rw [Vec3.get_set_of_ne _ _ hli]
      exact hprev l (by have := Fin.val_ne_of_ne hli; simp at this; omega)
  | case2 g _ hi =>
    rw [refreshFrom, dif_neg hi] at h
    cases h
    exact hprev j (by omega)

/-- A property of every squared length that passes the zero test holds of every squared length
of an orthogonalisation from scratch. -/
theorem compute_normSq {P : α → Prop}
    (hP : ∀ v : Vec3 α, Scalar.eq v.normSq Scalar.zero = false → P v.normSq)
    (h : compute basis tol = .ok g) (i : Fin 3) : P (g.normSq.get i) :=
  refreshFrom_normSq hP (fun _ hj => absurd hj (Nat.not_lt_zero _)) h i

end Recorded

end GramSchmidt

end CrystalLattice.Reduction

namespace CrystalLattice.Binary64

open Float.Model Float.Model.UnpackedFloat Reduction GramSchmidt

instance (s : Sign) (u : UnpackedFloat) : Decidable (HasSign s u) := by
  cases u <;> unfold HasSign <;> infer_instance

instance (x : Float) : Decidable (HasPositiveSign x) :=
  inferInstanceAs (Decidable (HasSign _ _))

@[simp] theorem scalar_le_float (x y : Float) : Scalar.le x y = decide (x ≤ y) := rfl

@[simp] theorem scalar_abs_float (x : Float) : Scalar.abs x = x.abs := rfl

section Constants

theorem half_add_zero : (0.5 : Float) + 0 = 0.5 := by decide

theorem one_sub_zero : (Scalar.one : Float) - 0 = 1 := by decide

theorem unpack_half_ne_notANumber : (0.5 : Float).toModel.unpack ≠ .notANumber := by decide

theorem half_lt_half_add_checkSlack : (0.5 : Float) < 0.5 + checkSlack := by decide

theorem hasPositiveSign_half : HasPositiveSign (0.5 : Float) := by decide

theorem hasPositiveSign_half_add_checkSlack : HasPositiveSign ((0.5 : Float) + checkSlack) := by
  decide

theorem unpack_one_sub_checkSlack : ((Scalar.one : Float) - checkSlack).toModel.unpack =
    .finite .positive 9007199245733793 (-53) (by decide) := by
  decide

theorem slackValid_checkSlack : slackValid (checkSlack : Float) = true := by decide

theorem identity_round : (Mat3.identity : Mat3 Float).round = Mat3.identity := by decide

set_option maxRecDepth 2000 in
theorem identity_inverse : (Mat3.identity : Mat3 Float).inverse = .ok Mat3.identity := by
  decide

end Constants

section Tests

variable {δ : Float} {g : GramSchmidt Float}

theorem isFinite_of_deltaValid (h : deltaValid δ = true) : δ.isFinite = true := by
  simp only [deltaValid, Bool.not_eq_true', Bool.or_eq_false_iff, scalar_le_float,
    decide_eq_false_iff_not] at h
  obtain ⟨⟨hnan, hlow⟩, hhigh⟩ := h
  rw [le_iff_unpack_le] at hlow hhigh
  change δ.toModel.unpack.isFinite = true
  change δ.toModel.unpack.isNaN = false at hnan
  cases hu : δ.toModel.unpack with
  | infinity s =>
    rw [hu] at hlow hhigh
    cases s
    · exact absurd (by decide) hlow
    · exact absurd (by decide) hhigh
  | notANumber =>
    rw [hu] at hnan
    cases hnan
  | zero s => rfl
  | finite s m e hm => rfl

/-- Every squared length of an orthogonalisation from scratch has the positive sign and is not
zero. -/
theorem compute_normSq_hasPositiveSign {basis : Mat3 Float} {tol : Float}
    (h : compute basis tol = .ok g) (i : Fin 3) :
    HasPositiveSign (g.normSq.get i) ∧ (g.normSq.get i == 0) = false :=
  compute_normSq (P := fun m => HasPositiveSign m ∧ (m == 0) = false)
    (fun v hv => ⟨Vec3.hasPositiveSign_normSq v, hv⟩) h i

theorem lovaszBound_ne_notANumber (hδ : δ.isFinite = true) (hfin : g.IsFinite)
    (hM : ∀ i, (g.normSq.get i == 0) = false) (i lower : Fin 3) :
    (lovaszBound g δ i lower).toModel.unpack ≠ .notANumber := by
  have hμ : (g.coeff.get i lower).isFinite = true := hfin.1 i lower
  have hμ' := unpack_ne_notANumber_of_isFinite hμ
  have hsq : (g.coeff.get i lower * g.coeff.get i lower).toModel.unpack ≠ .notANumber :=
    unpack_mul_ne_notANumber hμ' hμ fun hinf => by
      change (g.coeff.get i lower).toModel.unpack.isFinite = true at hμ
      change (g.coeff.get i lower).toModel.unpack.isInf = true at hinf
      cases hu : (g.coeff.get i lower).toModel.unpack <;>
        simp_all [UnpackedFloat.isInf, UnpackedFloat.isFinite]
  exact unpack_mul_ne_notANumber (unpack_sub_ne_notANumber hδ hsq) (hfin.2 lower)
    fun _ => hM lower

/-- With slack zero the check's tests on a finite orthogonalisation with nonzero squared lengths
are the negations of the loop's: what the check accepts the loop passes. -/
theorem passesLoopTests_of_check (hδ : δ.isFinite = true) (hfin : g.IsFinite)
    (hM : ∀ i, (g.normSq.get i == 0) = false) (hsize : oversizedCoeff? g 0 = none)
    (hlov : lovaszFailure? g δ 0 = none) : PassesLoopTests δ g := by
  constructor
  · intro i j hji
    have h := oversizedCoeff?_eq_none_iff.mp hsize i j hji
    simp only [half_add_zero, scalar_lt_float, decide_eq_false_iff_not] at h
    have hμ := unpack_abs_ne_notANumber (unpack_ne_notANumber_of_isFinite (hfin.1 i j))
    simpa using le_of_not_lt unpack_half_ne_notANumber hμ h
  · intro i lower hi
    have h := lovaszFailure?_eq_none_iff.mp hlov i lower hi
    simp only [one_sub_zero, mul_one_eq, scalar_lt_float, decide_eq_false_iff_not] at h
    have hB := lovaszBound_ne_notANumber hδ hfin hM i lower
    simpa using le_of_not_lt (unpack_ne_notANumber_of_isFinite (hfin.2 i)) hB h

/-- What the check accepts with slack zero it accepts with the slack of the reduction's closing
check: `1/2 + 10⁻⁹` is above `1/2`, and a factor `1 - 10⁻⁹` does not raise a bound. -/
theorem check_checkSlack_of_zero (hδ : δ.isFinite = true) (hfin : g.IsFinite)
    (hM : ∀ i, HasPositiveSign (g.normSq.get i) ∧ (g.normSq.get i == 0) = false)
    (hsize : oversizedCoeff? g 0 = none) (hlov : lovaszFailure? g δ 0 = none) :
    oversizedCoeff? g checkSlack = none ∧ lovaszFailure? g δ checkSlack = none := by
  constructor
  · refine oversizedCoeff?_eq_none_iff.mpr fun i j hji => ?_
    have h := oversizedCoeff?_eq_none_iff.mp hsize i j hji
    simp only [half_add_zero, scalar_lt_float, decide_eq_false_iff_not] at h ⊢
    exact fun hlt => h (hasPositiveSign_half.lt_trans hasPositiveSign_half_add_checkSlack
      (hasPositiveSign_abs _) half_lt_half_add_checkSlack hlt)
  · refine lovaszFailure?_eq_none_iff.mpr fun i lower hi => ?_
    have h := lovaszFailure?_eq_none_iff.mp hlov i lower hi
    simp only [one_sub_zero, mul_one_eq, scalar_lt_float, decide_eq_false_iff_not] at h ⊢
    exact not_lt_mul_of_not_lt (hM i).1 (lovaszBound_ne_notANumber hδ hfin (fun i => (hM i).2) i lower)
      unpack_one_sub_checkSlack (by norm_num) (by norm_num) h

end Tests

deriving instance DecidableEq for GramSchmidt

/-- A finite basis that the check accepts with slack zero is a fixed point of the reduction, once
its orthogonalisation is finite: the reduction advances twice without a size-reduction update,
and returns the basis with the identity matrix and its inverse after two steps and no swap. -/
theorem reduce_of_checkReduced {L : Mat3 Float} {δ tol : Float} {g : GramSchmidt Float}
    (hδ : deltaValid δ = true) (ht : toleranceValid tol = true)
    (hcheck : checkReduced L δ 0 tol = .ok ()) (hg : compute L tol = .ok g) (hfin : g.IsFinite) :
    reduce L [.delta δ, .tolerance tol, .trace] =
      ⟨some #[⟨1, 2, .advance, 0, 0⟩, ⟨2, 3, .advance, 0, 0⟩],
        .ok ⟨L, Mat3.identity, Mat3.identity, 2, 0⟩⟩ := by
  obtain ⟨-, -, hv, g', hg', hsize, hlov⟩ := checkReduced_eq_ok_iff.mp hcheck
  obtain rfl : g' = g := Except.ok.inj (hg'.symm.trans hg)
  have hδf := isFinite_of_deltaValid hδ
  have hM := compute_normSq_hasPositiveSign hg
  have ho : Options.ofSettings [.delta δ, .tolerance tol, .trace] =
      ⟨δ, defaultMaxSteps, tol, true, none⟩ := by
    simp [Options.ofSettings, Options.apply, Options.default, hδ, ht]
  -- the closing check repeats the check with a larger slack
  have hcheck' : checkReduced L δ checkSlack tol = .ok () :=
    checkReduced_eq_ok_iff.mpr ⟨hδ, slackValid_checkSlack, hv, g', hg',
      check_checkSlack_of_zero hδf hfin hM hsize hlov⟩
  have hrun := runWith_of_passesLoopTests (o := ⟨δ, defaultMaxSteps, tol, true, none⟩) rfl
    (by simp [defaultMaxSteps]) hv hg' (passesLoopTests_of_check hδf hfin (fun i => (hM i).2) hsize hlov)
    identity_round identity_inverse hcheck'
  simp only [reduce, ho, hrun, if_true]

/-- A basis with both loop tests on their boundary, a coefficient of exactly one half and a
Lovász pair with equality, is accepted by the check and left as it is. -/
theorem tiedBasis_reduce_of_checkReduced :
    deltaValid (0.5 : Float) = true ∧ toleranceValid (1e-12 : Float) = true ∧
      checkReduced (⟨⟨1, 0, 0⟩, ⟨0.5, 0.5, 0⟩, ⟨0, 0, 1⟩⟩ : Mat3 Float) 0.5 0 1e-12 = .ok () ∧
      compute (⟨⟨1, 0, 0⟩, ⟨0.5, 0.5, 0⟩, ⟨0, 0, 1⟩⟩ : Mat3 Float) 1e-12 =
        .ok ⟨⟨⟨1, 0, 0⟩, ⟨0, 0.5, 0⟩, ⟨0, 0, 1⟩⟩, ⟨1, 0.25, 1⟩,
          ⟨⟨0, 0, 0⟩, ⟨0.5, 0, 0⟩, ⟨0, 0, 0⟩⟩⟩ ∧
      (⟨⟨⟨1, 0, 0⟩, ⟨0, 0.5, 0⟩, ⟨0, 0, 1⟩⟩, ⟨1, 0.25, 1⟩,
          ⟨⟨0, 0, 0⟩, ⟨0.5, 0, 0⟩, ⟨0, 0, 0⟩⟩⟩ : GramSchmidt Float).IsFinite ∧
      reduce (⟨⟨1, 0, 0⟩, ⟨0.5, 0.5, 0⟩, ⟨0, 0, 1⟩⟩ : Mat3 Float) [.delta 0.5, .tolerance 1e-12, .trace] =
        ⟨some #[⟨1, 2, .advance, 0, 0⟩, ⟨2, 3, .advance, 0, 0⟩],
          .ok ⟨⟨⟨1, 0, 0⟩, ⟨0.5, 0.5, 0⟩, ⟨0, 0, 1⟩⟩, Mat3.identity, Mat3.identity, 2, 0⟩⟩ := by
  have hδ : deltaValid (0.5 : Float) = true := by decide
  have ht : toleranceValid (1e-12 : Float) = true := by decide
  have hcheck : checkReduced (⟨⟨1, 0, 0⟩, ⟨0.5, 0.5, 0⟩, ⟨0, 0, 1⟩⟩ : Mat3 Float) 0.5 0 1e-12 =
      .ok () := by
    decide +kernel
  have hg : compute (⟨⟨1, 0, 0⟩, ⟨0.5, 0.5, 0⟩, ⟨0, 0, 1⟩⟩ : Mat3 Float) 1e-12 =
      .ok ⟨⟨⟨1, 0, 0⟩, ⟨0, 0.5, 0⟩, ⟨0, 0, 1⟩⟩, ⟨1, 0.25, 1⟩,
        ⟨⟨0, 0, 0⟩, ⟨0.5, 0, 0⟩, ⟨0, 0, 0⟩⟩⟩ := by
    decide +kernel
  have hfin : (⟨⟨⟨1, 0, 0⟩, ⟨0, 0.5, 0⟩, ⟨0, 0, 1⟩⟩, ⟨1, 0.25, 1⟩,
      ⟨⟨0, 0, 0⟩, ⟨0.5, 0, 0⟩, ⟨0, 0, 0⟩⟩⟩ : GramSchmidt Float).IsFinite := by
    decide
  exact ⟨hδ, ht, hcheck, hg, hfin, reduce_of_checkReduced hδ ht hcheck hg hfin⟩

/-- Without finiteness the loop and the check disagree: a NaN coefficient passes every test of
the check, while the loop size-reduces and swaps. -/
theorem nanCoefficient_passes_check_swaps :
    checkReduced (⟨⟨2, 2, 0⟩, ⟨1e308, -1e308, 0⟩, ⟨0, 0, 1⟩⟩ : Mat3 Float) 0.75 0 1e-12 = .ok () ∧
      ∃ rest, (reduce (⟨⟨2, 2, 0⟩, ⟨1e308, -1e308, 0⟩, ⟨0, 0, 1⟩⟩ : Mat3 Float)
          [.delta 0.75, .tolerance 1e-12, .trace]).trace = some (#[⟨1, 2, .swap, 1, 1⟩] ++ rest) := by
  refine ⟨by decide +kernel, ?_⟩
  obtain ⟨rest, hrest⟩ : ∃ rest, (runWith (Options.ofSettings [.delta 0.75, .tolerance 1e-12, .trace])
      (⟨⟨2, 2, 0⟩, ⟨1e308, -1e308, 0⟩, ⟨0, 0, 1⟩⟩ : Mat3 Float)).1 = #[⟨1, 2, .swap, 1, 1⟩] ++ rest :=
    runWith_trace_first (by decide) (by decide +kernel) (by decide) (by decide +kernel)
  have htrace : (Options.ofSettings [.delta 0.75, .tolerance 1e-12, .trace] : Options Float).trace =
      true := by
    decide
  exact ⟨rest, by rw [reduce_trace, htrace, if_pos rfl, hrest]⟩

end CrystalLattice.Binary64
