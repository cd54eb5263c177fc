import CrystalLattice.Proofs.Unimodular

/-!
# Lattices with the same Gram matrix

When `L Lᵀ = L' L'ᵀ` every number an exact reduction tests or reports is a dot product of the
same combinations of rows, so the two runs go together step by step (`Progress.Corresponds`) and
the reductions agree (`reduce_of_same_gram`).
-/

namespace CrystalLattice

section Outcome

variable {ε α β α' β' : Type}

/-- Two computations end the same way: with the same failure, or with related values. -/
inductive SameOutcome (R : α → β → Prop) : Except ε α → Except ε β → Prop
  | error (e : ε) : SameOutcome R (.error e) (.error e)
  | ok {a : α} {b : β} : R a b → SameOutcome R (.ok a) (.ok b)

theorem SameOutcome.bind {R : α → β → Prop} {S : α' → β' → Prop} {x : Except ε α}
    {y : Except ε β} {f : α → Except ε α'} {g : β → Except ε β'} (h : SameOutcome R x y)
    (hfg : ∀ a b, R a b → SameOutcome S (f a) (g b)) : SameOutcome S (x >>= f) (y >>= g) := by
  cases h with
  | error e => exact .error e
  | ok hab => exact hfg _ _ hab

end Outcome

namespace Vec3

@[simp] theorem zero_mulMat (m : Mat3 ℚ) : (zero : Vec3 ℚ).mulMat m = zero := by
  ext <;> simp [mulMat]

@[simp] theorem scale_mulMat (q : ℚ) (v : Vec3 ℚ) (m : Mat3 ℚ) :
    (v.scale q).mulMat m = (v.mulMat m).scale q := by
  ext <;> simp [mulMat] <;> ring

theorem dot_mulMat (c d : Vec3 ℚ) (L : Mat3 ℚ) :
    (c.mulMat L).dot (d.mulMat L) = c.dot (d.mulMat (L.mul L.transpose)) := by
  simp only [dot_def, mulMat, ofFn_x, ofFn_y, ofFn_z, Mat3.get_mul, scalar_zero_rat, zero_add]
  simp [Mat3.transpose, Mat3.ofCols, Mat3.get_def]
  ring

variable {L L' : Mat3 ℚ} {v v' w w' : Vec3 ℚ}

/-- `v` and `v'` are one combination of the rows of `L` and of `L'`. -/
def Corresponds (L L' : Mat3 ℚ) (v v' : Vec3 ℚ) : Prop :=
  ∃ c : Vec3 ℚ, v = c.mulMat L ∧ v' = c.mulMat L'

theorem corresponds_zero : Corresponds L L' zero zero :=
  ⟨zero, (zero_mulMat L).symm, (zero_mulMat L').symm⟩

theorem corresponds_row (L L' : Mat3 ℚ) (i : Fin 3) : Corresponds L L' (L.row i) (L'.row i) :=
  ⟨Mat3.identity.row i, by rw [← Mat3.row_mul, Mat3.identity_mul],
    by rw [← Mat3.row_mul, Mat3.identity_mul]⟩

theorem Corresponds.add (hv : Corresponds L L' v v') (hw : Corresponds L L' w w') :
    Corresponds L L' (v.add w) (v'.add w') := by
  obtain ⟨c, rfl, rfl⟩ := hv
  obtain ⟨d, rfl, rfl⟩ := hw
  exact ⟨c.add d, (add_mulMat c d L).symm, (add_mulMat c d L').symm⟩

theorem Corresponds.sub (hv : Corresponds L L' v v') (hw : Corresponds L L' w w') :
    Corresponds L L' (v.sub w) (v'.sub w') := by
  obtain ⟨c, rfl, rfl⟩ := hv
  obtain ⟨d, rfl, rfl⟩ := hw
  exact ⟨c.sub d, (sub_mulMat c d L).symm, (sub_mulMat c d L').symm⟩

theorem Corresponds.scale (q : ℚ) (hv : Corresponds L L' v v') :
    Corresponds L L' (v.scale q) (v'.scale q) := by
  obtain ⟨c, rfl, rfl⟩ := hv
  exact ⟨c.scale q, (scale_mulMat q c L).symm, (scale_mulMat q c L').symm⟩

section Gram

variable (hG : L.mul L.transpose = L'.mul L'.transpose)
include hG

theorem Corresponds.dot_eq (hv : Corresponds L L' v v') (hw : Corresponds L L' w w') :
    v'.dot w' = v.dot w := by
  obtain ⟨c, rfl, rfl⟩ := hv
  obtain ⟨d, rfl, rfl⟩ := hw
  rw [dot_mulMat, dot_mulMat, hG]

theorem Corresponds.normSq_eq (hv : Corresponds L L' v v') : v'.normSq = v.normSq :=
  hv.dot_eq hG hv

end Gram

end Vec3

namespace Mat3

variable {L L' m m' : Mat3 ℚ}

/-- Each row of `m'` is the combination of the rows of `L'` that the same row of `m` is of the
rows of `L`. -/
def RowsCorrespond (L L' m m' : Mat3 ℚ) : Prop := ∀ i, Vec3.Corresponds L L' (m.row i) (m'.row i)

theorem rowsCorrespond_self (L L' : Mat3 ℚ) : RowsCorrespond L L' L L' :=
  Vec3.corresponds_row L L'

theorem rowsCorrespond_zero : RowsCorrespond L L' zero zero := by
  intro i
  fin_cases i <;> exact Vec3.corresponds_zero

theorem RowsCorrespond.setRow (h : RowsCorrespond L L' m m') (i : Fin 3) {v v' : Vec3 ℚ}
    (hv : Vec3.Corresponds L L' v v') : RowsCorrespond L L' (m.setRow i v) (m'.setRow i v') := by
  intro j
  by_cases hji : j = i
  · subst hji
    rw [row_setRow_self, row_setRow_self]
    exact hv
  · rw [row_setRow_of_ne _ _ hji, row_setRow_of_ne _ _ hji]
    exact h j

theorem RowsCorrespond.swapRows (h : RowsCorrespond L L' m m') (i j : Fin 3) :
    RowsCorrespond L L' (m.swapRows i j) (m'.swapRows i j) :=
  (h.setRow i (h j)).setRow j (h i)

end Mat3

namespace Reduction

variable {L L' : Mat3 ℚ}

namespace GramSchmidt

/-- Two orthogonalisations with the same coefficients and squared lengths, whose orthogonal
vectors are the same combinations of the rows of `L` and of `L'`. -/
structure Corresponds (L L' : Mat3 ℚ) (g g' : GramSchmidt ℚ) : Prop where
  ortho : Mat3.RowsCorrespond L L' g.ortho g'.ortho
  normSq_eq : g'.normSq = g.normSq
  coeff_eq : g'.coeff = g.coeff

variable {g g' : GramSchmidt ℚ} {basis basis' : Mat3 ℚ}

theorem corresponds_empty : Corresponds L L' empty empty :=
  ⟨Mat3.rowsCorrespond_zero, rfl, rfl⟩

theorem Corresponds.projection (h : Corresponds L L' g g') (c : Vec3 ℚ) (i : Fin 3) :
    Vec3.Corresponds L L' (g.projection c i) (g'.projection c i) := by
  have h0 := (h.ortho 0).scale c.x
  have h1 := (h.ortho 1).scale c.y
  fin_cases i
  · exact Vec3.corresponds_zero
  · exact Vec3.corresponds_zero.add h0
  · exact (Vec3.corresponds_zero.add h0).add h1

section Gram

variable (hG : L.mul L.transpose = L'.mul L'.transpose)
include hG

theorem Corresponds.coeffRow_eq (h : Corresponds L L' g g') {a a' : Vec3 ℚ}
    (ha : Vec3.Corresponds L L' a a') (i : Fin 3) : g'.coeffRow a' i = g.coeffRow a i := by
  simp only [coeffRow]
  congr 1
  funext j
  split_ifs
  · rw [ha.dot_eq hG (h.ortho j), h.normSq_eq]
  · rfl

/-- Refreshing a row of corresponding orthogonalisations from corresponding bases fails on both
sides with the same degenerate vector, or gives corresponding orthogonalisations. -/
theorem Corresponds.refresh (h : Corresponds L L' g g') (hb : Mat3.RowsCorrespond L L' basis basis')
    (tol : ℚ) (i : Fin 3) :
    SameOutcome (Corresponds L L') (g.refresh basis tol i) (g'.refresh basis' tol i) := by
  have hc := h.coeffRow_eq hG (hb i) i
  have hres := (hb i).sub (h.projection (g.coeffRow (basis.row i) i) i)
  simp only [GramSchmidt.refresh, hc, hres.normSq_eq hG, (hb i).normSq_eq hG]
  split_ifs
  · exact .error _
  · refine .ok ⟨h.ortho.setRow i hres, ?_, ?_⟩
    · rw [h.normSq_eq]
    · rw [h.coeff_eq]

theorem Corresponds.refreshFrom (hb : Mat3.RowsCorrespond L L' basis basis') (tol : ℚ) (i : ℕ)
    (h : Corresponds L L' g g') :
    SameOutcome (Corresponds L L') (g.refreshFrom basis tol i) (g'.refreshFrom basis' tol i) := by
  induction g, i using GramSchmidt.refreshFrom.induct generalizing g' with
  | case1 g i hi ih =>
    rw [GramSchmidt.refreshFrom, dif_pos hi, GramSchmidt.refreshFrom, dif_pos hi]
    exact (h.refresh hG hb tol ⟨i, hi⟩).bind fun g₁ g₁' h₁ => ih g₁ h₁
  | case2 g i hi =>
    rw [GramSchmidt.refreshFrom, dif_neg hi, GramSchmidt.refreshFrom, dif_neg hi]
    exact .ok h

theorem compute_corresponds (hb : Mat3.RowsCorrespond L L' basis basis') (tol : ℚ) :
    SameOutcome (Corresponds L L') (compute basis tol) (compute basis' tol) :=
  corresponds_empty.refreshFrom hG hb tol 0

end Gram

end GramSchmidt

section Check

variable {g g' : GramSchmidt ℚ} {basis basis' : Mat3 ℚ}

/-- The check reads an orthogonalisation only through its coefficients and squared lengths, so
corresponding bases pass or fail it alike. -/
theorem checkReduced_eq_of_corresponds {δ s tol : ℚ}
    (h : SameOutcome (GramSchmidt.Corresponds L L') (GramSchmidt.compute basis tol)
      (GramSchmidt.compute basis' tol)) :
    checkReduced basis' δ s tol = checkReduced basis δ s tol := by
  simp only [checkReduced, Mat3.validateFinite_rat]
  generalize GramSchmidt.compute basis tol = x at h
  generalize GramSchmidt.compute basis' tol = x' at h
  cases h with
  | error e => rfl
  | ok hg =>
    rename_i g g'
    obtain ⟨ortho', normSq', coeff'⟩ := g'
    obtain ⟨-, rfl, rfl⟩ := hg
    rfl

end Check

namespace Progress

/-- Two reduction states that go together: the same pointer, counts, integer matrix and
coefficients, with corresponding bases and orthogonalisations. -/
structure Corresponds (L L' : Mat3 ℚ) (p p' : Progress ℚ) : Prop where
  basis : Mat3.RowsCorrespond L L' p.basis p'.basis
  gs : GramSchmidt.Corresponds L L' p.gs p'.gs
  mapping_eq : p'.mapping = p.mapping
  k_eq : p'.k = p.k
  steps_eq : p'.steps = p.steps
  swaps_eq : p'.swaps = p.swaps

variable {p p' : Progress ℚ}

theorem Corresponds.subtractMultiple (h : Corresponds L L' p p') (r i : Fin 3) (q : ℚ) :
    Corresponds L L' (p.subtractMultiple r i q) (p'.subtractMultiple r i q) := by
  refine ⟨h.basis.setRow r ((h.basis r).sub ((h.basis i).scale q)),
    ⟨h.gs.ortho, h.gs.normSq_eq, ?_⟩, ?_, h.k_eq, h.steps_eq, h.swaps_eq⟩
  · simp only [Progress.subtractMultiple, h.gs.coeff_eq]
  · simp only [Progress.subtractMultiple, h.mapping_eq]

theorem Corresponds.reduceAgainst (h : Corresponds L L' p p') (n : ℕ) (r i : Fin 3) :
    Corresponds L L' (Progress.reduceAgainst r (p, n) i).1 (Progress.reduceAgainst r (p', n) i).1 ∧
      (reduceAgainst r (p', n) i).2 = (reduceAgainst r (p, n) i).2 := by
  simp only [Progress.reduceAgainst, h.gs.coeff_eq]
  split_ifs
  · exact ⟨h, rfl⟩
  · exact ⟨h.subtractMultiple r i _, rfl⟩

theorem Corresponds.sizeReduce (h : Corresponds L L' p p') (r : Fin 3) :
    Corresponds L L' (p.sizeReduce r).1 (p'.sizeReduce r).1 ∧
      (p'.sizeReduce r).2 = (p.sizeReduce r).2 := by
  have hfold : ∀ (l : List (Fin 3)) (a a' : Progress ℚ × ℕ), Corresponds L L' a.1 a'.1 →
      a'.2 = a.2 → Corresponds L L' (l.foldl (Progress.reduceAgainst r) a).1
        (l.foldl (Progress.reduceAgainst r) a').1 ∧
        (l.foldl (Progress.reduceAgainst r) a').2 = (l.foldl (Progress.reduceAgainst r) a).2 := by
    intro l
    induction l with
    | nil => exact fun _ _ ha hn => ⟨ha, hn⟩
    | cons i l ih =>
      rintro ⟨q, n⟩ ⟨q', n'⟩ ha hn
      obtain rfl : n' = n := hn
      obtain ⟨h₁, hn₁⟩ := Corresponds.reduceAgainst ha _ r i
      exact ih _ _ h₁ hn₁
  exact hfold (below r) (p, 0) (p', 0) h rfl

theorem Corresponds.lovaszHolds_eq (h : Corresponds L L' p p') (δ : ℚ) (r lower : Fin 3) :
    p'.lovaszHolds δ r lower = p.lovaszHolds δ r lower := by
  simp only [Progress.lovaszHolds, h.gs.coeff_eq, h.gs.normSq_eq]

/-- One step from corresponding states fails alike on both sides, or reports the same event
and leads to corresponding states. -/
theorem Corresponds.step (hG : L.mul L.transpose = L'.mul L'.transpose)
    (h : Corresponds L L' p p') (o : Options ℚ) :
    SameOutcome (fun a b => Corresponds L L' a.1 b.1 ∧ b.2 = a.2) (p.step o) (p'.step o) := by
  obtain ⟨basis, mapping, gs, k, steps, swaps⟩ := p
  obtain ⟨basis', mapping', gs', k', steps', swaps'⟩ := p'
  obtain ⟨hb, hg, hm, hk, hs, hw⟩ := h
  simp only at hb hg hm hk hs hw
  subst mapping' k' steps' swaps'
  by_cases hin : 2 ≤ k ∧ k ≤ 3
  · simp only [Progress.step, dif_pos hin]
    have h₀ : Corresponds L L' ⟨basis, mapping, gs, k, steps + 1, swaps⟩
        ⟨basis', mapping, gs', k, steps + 1, swaps⟩ := ⟨hb, hg, rfl, rfl, rfl, rfl⟩
    obtain ⟨h₁, hn⟩ := h₀.sizeReduce ⟨k - 1, by omega⟩
    generalize Progress.sizeReduce ⟨basis, mapping, gs, k, steps + 1, swaps⟩ ⟨k - 1, _⟩ = a
      at h₁ hn ⊢
    generalize Progress.sizeReduce ⟨basis', mapping, gs', k, steps + 1, swaps⟩ ⟨k - 1, _⟩ = a'
      at h₁ hn ⊢
    obtain ⟨p₁, n⟩ := a
    obtain ⟨p₁', n'⟩ := a'
    simp only at h₁ hn ⊢
    subst hn
    rw [h₁.lovaszHolds_eq]
    by_cases hl : p₁.lovaszHolds o.delta ⟨k - 1, by omega⟩ ⟨k - 2, by omega⟩ = true
    · rw [if_pos hl, if_pos hl]
      exact .ok ⟨⟨h₁.basis, h₁.gs, h₁.mapping_eq, by rw [h₁.k_eq], h₁.steps_eq, h₁.swaps_eq⟩,
        by rw [h₁.k_eq, h₁.swaps_eq]⟩
    · rw [if_neg hl, if_neg hl]
      have hsw := h₁.basis.swapRows ⟨k - 1, by omega⟩ ⟨k - 2, by omega⟩
      refine (h₁.gs.refreshFrom hG hsw o.tolerance (k - 2)).bind fun g g' hgg => .ok ⟨⟨hsw, hgg,
        by rw [h₁.mapping_eq], by rw [h₁.k_eq], h₁.steps_eq, by rw [h₁.swaps_eq]⟩, ?_⟩
      rw [h₁.k_eq, h₁.swaps_eq]
  · simp only [Progress.step, dif_neg hin]
    exact .ok ⟨⟨hb, hg, rfl, rfl, rfl, rfl⟩, rfl⟩

end Progress

section Run

variable (hG : L.mul L.transpose = L'.mul L'.transpose)
include hG

/-- Runs from corresponding states report the same steps, and fail alike or end in
corresponding states. -/
theorem runSteps_corresponds (o : Options ℚ) (budget : ℕ) :
    ∀ (p p' : Progress ℚ) (trace : Array StepEvent), Progress.Corresponds L L' p p' →
      (runSteps o budget p' trace).1 = (runSteps o budget p trace).1 ∧
        SameOutcome (Progress.Corresponds L L') (runSteps o budget p trace).2
          (runSteps o budget p' trace).2 := by
  induction budget with
  | zero =>
    intro p p' trace h
    by_cases hk : 3 < p.k
    · rw [runSteps_of_lt hk, runSteps_of_lt (h.k_eq ▸ hk)]
      exact ⟨rfl, .ok h⟩
    · rw [runSteps, runSteps, if_neg hk, if_neg (h.k_eq ▸ hk), h.steps_eq, h.swaps_eq]
      exact ⟨rfl, .error _⟩
  | succ n ih =>
    intro p p' trace h
    by_cases hk : 3 < p.k
    · rw [runSteps_of_lt hk, runSteps_of_lt (h.k_eq ▸ hk)]
      exact ⟨rfl, .ok h⟩
    · rw [runSteps, runSteps, if_neg hk, if_neg (h.k_eq ▸ hk)]
      have hs := h.step hG o
      generalize p.step o = x at hs ⊢
      generalize p'.step o = x' at hs ⊢
      cases hs with
      | error e => exact ⟨rfl, .error _⟩
      | ok hab =>
        rename_i a b
        obtain ⟨q, ev⟩ := a
        obtain ⟨q', ev'⟩ := b
        obtain ⟨h₁, rfl⟩ := hab
        exact ih q q' _ h₁

theorem finish_corresponds (o : Options ℚ) {p p' : Progress ℚ}
    (h : Progress.Corresponds L L' p p') :
    SameOutcome (fun res res' : Result ℚ => res' = { res with reduced := res'.reduced })
      (finish o p) (finish o p') := by
  have hcheck := checkReduced_eq_of_corresponds (δ := o.delta) (s := checkSlack)
    (GramSchmidt.compute_corresponds hG h.basis o.tolerance)
  simp only [finish, h.mapping_eq, h.steps_eq, h.swaps_eq, hcheck]
  generalize p.mapping.round.inverse = x
  generalize checkReduced p.basis o.delta checkSlack o.tolerance = c
  cases x with
  | error e => exact .error _
  | ok inv =>
    cases c with
    | error e => exact .error _
    | ok u => exact .ok rfl

/-- Reductions of lattices with the same Gram matrix report the same steps, and fail alike or
succeed with the same result up to the reduced basis. -/
theorem runWith_corresponds (o : Options ℚ) :
    (runWith o L').1 = (runWith o L).1 ∧
      SameOutcome (fun res res' : Result ℚ => res' = { res with reduced := res'.reduced })
        (runWith o L).2 (runWith o L').2 := by
  have hc := GramSchmidt.compute_corresponds hG (Mat3.rowsCorrespond_self L L') o.tolerance
  simp only [runWith, Mat3.validateFinite_rat]
  cases o.fault with
  | some c => exact ⟨rfl, .error _⟩
  | none =>
    generalize GramSchmidt.compute L o.tolerance = x at hc ⊢
    generalize GramSchmidt.compute L' o.tolerance = x' at hc ⊢
    cases hc with
    | error e => exact ⟨rfl, .error _⟩
    | ok hg =>
      rename_i gs gs'
      dsimp only
      have hstart : Progress.Corresponds L L' ⟨L, Mat3.identity, gs, 2, 0, 0⟩
          ⟨L', Mat3.identity, gs', 2, 0, 0⟩ :=
        ⟨Mat3.rowsCorrespond_self L L', hg, rfl, rfl, rfl, rfl⟩
      obtain ⟨htrace, hrun⟩ := runSteps_corresponds hG o o.maxSteps _ _ #[] hstart
      generalize runSteps o o.maxSteps ⟨L, Mat3.identity, gs, 2, 0, 0⟩ #[] = r at htrace hrun ⊢
      generalize runSteps o o.maxSteps ⟨L', Mat3.identity, gs', 2, 0, 0⟩ #[] = r' at htrace hrun ⊢
      obtain ⟨t, r⟩ := r
      obtain ⟨t', r'⟩ := r'
      obtain rfl : t' = t := htrace
      exact ⟨rfl, hrun.bind fun p p' hp => finish_corresponds hG o hp⟩

end Run

/-- A reduction sees only the Gram matrix of its lattice: lattices with `L Lᵀ = L' L'ᵀ` are
reduced through the same steps to the same failure or the same integer matrix. -/
theorem reduce_of_same_gram (hG : L.mul L.transpose = L'.mul L'.transpose)
    (settings : List (Setting ℚ)) :
    (reduce L' settings).trace = (reduce L settings).trace ∧
      (reduce L' settings).result =
        (reduce L settings).result.map fun res => { res with reduced := res.mapping.mul L' } := by
  obtain ⟨htrace, hres⟩ := runWith_corresponds hG (Options.ofSettings settings)
  have hreduced : ∀ res', (runWith (Options.ofSettings settings) L').2 = .ok res' →
      res'.reduced = res'.mapping.mul L' :=
    fun res' h =>
      (reduce_reducesTo (show (reduce L' settings).result = .ok res' from h)).sameLattice.basis_eq
  refine ⟨?_, ?_⟩
  · change (if (Options.ofSettings settings).trace then
        some (runWith (Options.ofSettings settings) L').1 else none) =
      if (Options.ofSettings settings).trace then
        some (runWith (Options.ofSettings settings) L).1 else none
    rw [htrace]
  · rw [reduce_result, reduce_result]
    generalize (runWith (Options.ofSettings settings) L).2 = x at hres
    generalize (runWith (Options.ofSettings settings) L').2 = x' at hres hreduced
    cases hres with
    | error e => rfl
    | ok hab =>
      rename_i res res'
      rw [hab, hreduced res' rfl, hab]
      rfl

/-- A sheared lattice and its image under the rotation with cosine `3/5` in the first plane have
one Gram matrix, and are reduced alike. -/
theorem rotatedShear_reduce_of_same_gram :
    let L : Mat3 ℚ := ⟨⟨1, 0, 0⟩, ⟨0, 1, 0⟩, ⟨3, 0, 1⟩⟩
    let L' : Mat3 ℚ := ⟨⟨3 / 5, 4 / 5, 0⟩, ⟨-4 / 5, 3 / 5, 0⟩, ⟨9 / 5, 12 / 5, 1⟩⟩
    L.mul L.transpose = L'.mul L'.transpose ∧
      (reduce L' []).trace = (reduce L []).trace ∧
        (reduce L' []).result =
          (reduce L []).result.map fun res => { res with reduced := res.mapping.mul L' } := by
  intro L L'
  have hG : L.mul L.transpose = L'.mul L'.transpose := by
    refine Mat3.eq_of_get_eq fun i j => ?_
    rw [Mat3.get_mul, Mat3.get_mul]
    fin_cases i <;> fin_cases j <;> simp [Mat3.transpose, Mat3.ofCols, Mat3.get_def, L, L'] <;>
      norm_num
  exact ⟨hG, reduce_of_same_gram hG []⟩

end Reduction

end CrystalLattice
