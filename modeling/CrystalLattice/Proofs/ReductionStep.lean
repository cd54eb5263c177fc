import CrystalLattice.Proofs.GramSchmidt
import CrystalLattice.Reduction.Run

/-!
What one step of the reduction can do. A step at pointer `k ∈ {2, 3}` size-reduces vector
`r = k - 1` by subtracting integer multiples of the vectors below it, and then either
advances the pointer or swaps vector `r` with the one below and recomputes the
orthogonalisation from there. Invariants of the reduction are proved against this
description, once per kind of change, and a run keeps whatever each step keeps.
-/

namespace CrystalLattice.Reduction

namespace Progress

section Control

variable {α : Type} [Scalar α]

/-- A step at pointer `k ∈ {2, 3}` size-reduces vector `k - 1` and then either advances, when
the Lovász condition holds for the pair ending there, or swaps the pair, recomputes the
orthogonalisation from the lower vector on, and moves the pointer back. -/
theorem step_cases {o : Options α} {p p' : Progress α} {ev : StepEvent}
    (h : p.step o = .ok (p', ev)) (hk : 2 ≤ p.k ∧ p.k ≤ 3) :
    ∃ (r lower : Fin 3) (p₁ : Progress α), r.val = p.k - 1 ∧ lower.val + 1 = r.val ∧
      p₁ = (sizeReduce { p with steps := p.steps + 1 } r).1 ∧
      ((p₁.lovaszHolds o.delta r lower = true ∧ p' = { p₁ with k := p₁.k + 1 }) ∨
        (p₁.lovaszHolds o.delta r lower = false ∧
          ∃ gs, p₁.gs.refreshFrom (p₁.basis.swapRows r lower) o.tolerance lower.val = .ok gs ∧
            p' = { p₁ with
              basis := p₁.basis.swapRows r lower, mapping := p₁.mapping.swapRows r lower,
              gs := gs, k := if p₁.k > 2 then p₁.k - 1 else p₁.k, swaps := p₁.swaps + 1 })) := by
  refine ⟨⟨p.k - 1, by omega⟩, ⟨p.k - 2, by omega⟩, _, rfl, by simp; omega, rfl, ?_⟩
  simp only [step, dif_pos hk] at h
  split at h
  · rename_i hl
    cases h
    exact Or.inl ⟨hl, rfl⟩
  · rename_i hl
    obtain ⟨gs, hgs, hp⟩ := bind_eq_ok h
    cases hp
    exact Or.inr ⟨by simpa using hl, gs, hgs, rfl⟩

theorem step_of_not_mem {o : Options α} {p p' : Progress α} {ev : StepEvent}
    (h : p.step o = .ok (p', ev)) (hk : ¬(2 ≤ p.k ∧ p.k ≤ 3)) : p' = p := by
  simp only [step, dif_neg hk, Except.ok.injEq, Prod.mk.injEq] at h
  exact h.1.symm

/-- Size reduction rewrites the basis, the integer matrix and the coefficients, and leaves the
pointer and the counts as they are. -/
theorem sizeReduce_control (p : Progress α) (r : Fin 3) :
    (p.sizeReduce r).1.k = p.k ∧ (p.sizeReduce r).1.steps = p.steps ∧
      (p.sizeReduce r).1.swaps = p.swaps := by
  have hfold : ∀ (l : List (Fin 3)) (acc : Progress α × ℕ),
      (l.foldl (reduceAgainst r) acc).1.k = acc.1.k ∧
        (l.foldl (reduceAgainst r) acc).1.steps = acc.1.steps ∧
        (l.foldl (reduceAgainst r) acc).1.swaps = acc.1.swaps := by
    intro l
    induction l with
    | nil => exact fun _ => ⟨rfl, rfl, rfl⟩
    | cons i l ih =>
      intro acc
      obtain ⟨hk, hs, hw⟩ := ih (reduceAgainst r acc i)
      have hone : (reduceAgainst r acc i).1.k = acc.1.k ∧
          (reduceAgainst r acc i).1.steps = acc.1.steps ∧
          (reduceAgainst r acc i).1.swaps = acc.1.swaps := by
        obtain ⟨q, n⟩ := acc
        simp only [reduceAgainst]
        split_ifs <;> exact ⟨rfl, rfl, rfl⟩
      exact ⟨hk.trans hone.1, hs.trans hone.2.1, hw.trans hone.2.2⟩
  exact hfold (below r) (p, 0)

/-- A step at `k ∈ {2, 3}` counts itself and moves the pointer by at most one: up on an
advance, down on a swap, and never below `2`. -/
theorem step_control {o : Options α} {p p' : Progress α} {ev : StepEvent}
    (h : p.step o = .ok (p', ev)) (hk : 2 ≤ p.k ∧ p.k ≤ 3) :
    p'.steps = p.steps + 1 ∧ 2 ≤ p'.k ∧ p'.k ≤ p.k + 1 := by
  obtain ⟨r, lower, p₁, -, -, hp₁, hcase⟩ := step_cases h hk
  obtain ⟨hk₁, hs₁, -⟩ := sizeReduce_control { p with steps := p.steps + 1 } r
  rw [← hp₁] at hk₁ hs₁
  rcases hcase with ⟨-, rfl⟩ | ⟨-, gs, -, rfl⟩
  · exact ⟨hs₁, by simp only [hk₁]; omega, by simp only [hk₁]; omega⟩
  · refine ⟨hs₁, ?_, ?_⟩ <;> simp only [hk₁] <;> split_ifs <;> omega

end Control

end Progress

section Run

variable {α : Type} [Scalar α] {o : Options α} {p p' : Progress α} {trace : Array StepEvent}

theorem runSteps_of_lt (hk : 3 < p.k) (budget : ℕ) :
    runSteps o budget p trace = (trace, .ok p) := by
  cases budget <;> simp [runSteps, hk]

theorem runSteps_succ_of_step {ev : StepEvent} (hk : p.k ≤ 3) (h : p.step o = .ok (p', ev))
    (budget : ℕ) : runSteps o (budget + 1) p trace = runSteps o budget p' (trace.push ev) := by
  rw [runSteps, if_neg (by omega)]
  simp only [h]

theorem runSteps_succ_of_step_error {c : Cause α} (hk : p.k ≤ 3) (h : p.step o = .error c)
    (budget : ℕ) :
    runSteps o (budget + 1) p trace = (trace, .error (.within .reduce (.ofCause c))) := by
  rw [runSteps, if_neg (by omega)]
  simp only [h]

/-- A property that every step keeps holds when a run ends, and the run ends with the pointer
past the last vector. -/
theorem runSteps_preserves (o : Options α) (Inv : Progress α → Prop)
    (hstep : ∀ p p' ev, Inv p → p.k ≤ 3 → p.step o = .ok (p', ev) → Inv p') (budget : ℕ) :
    ∀ (p : Progress α) (trace trace' : Array StepEvent) (p' : Progress α),
      Inv p → runSteps o budget p trace = (trace', .ok p') → Inv p' ∧ 3 < p'.k := by
  induction budget with
  | zero =>
    intro p trace trace' p' hp h
    rw [runSteps] at h
    split_ifs at h with hk
    · cases h
      exact ⟨hp, hk⟩
    · simp at h
  | succ n ih =>
    intro p trace trace' p' hp h
    rw [runSteps] at h
    split_ifs at h with hk
    · cases h
      exact ⟨hp, hk⟩
    · split at h
      · cases h
      · rename_i p₁ ev hs
        exact ih p₁ _ trace' p' (hstep p p₁ ev hp (by omega) hs) h

theorem finish_eq_ok {p : Progress α} {res : Result α} (h : finish o p = .ok res) :
    ∃ inv, p.mapping.round.inverse = .ok inv ∧
      res = ⟨p.basis, p.mapping.round, inv.round, p.steps, p.swaps⟩ := by
  obtain ⟨inv, hinv, hrest⟩ := bind_eq_ok h
  obtain ⟨u, -, hres⟩ := bind_eq_ok hrest
  refine ⟨inv, mapError_eq_ok hinv, ?_⟩
  cases hres
  rfl

/-- A reduction that succeeds ran its loop to the end, from the input lattice with its
orthogonalisation, and then finished. -/
theorem runWith_eq_ok {lattice : Mat3 α} {res : Result α} (h : (runWith o lattice).2 = .ok res) :
    ∃ gs trace p, GramSchmidt.compute lattice o.tolerance = .ok gs ∧
      runSteps o o.maxSteps ⟨lattice, Mat3.identity, gs, 2, 0, 0⟩ #[] = (trace, .ok p) ∧
      finish o p = .ok res := by
  simp only [runWith] at h
  split at h
  · cases h
  split at h
  · cases h
  split at h
  · cases h
  rename_i gs hgs
  rcases hrun : runSteps o o.maxSteps ⟨lattice, Mat3.identity, gs, 2, 0, 0⟩ #[] with ⟨trace, r⟩
  rw [hrun] at h
  obtain ⟨p, rfl, hfin⟩ := bind_eq_ok h
  exact ⟨gs, trace, p, hgs, hrun, hfin⟩

theorem reduce_result (lattice : Mat3 α) (settings : List (Setting α)) :
    (reduce lattice settings).result = (runWith (Options.ofSettings settings) lattice).2 := rfl

/-- A reduction whose options carry no fault, on a finite lattice that can be orthogonalised,
returns what finishing its loop returns. -/
theorem reduce_result_of_run {lattice : Mat3 α} {settings : List (Setting α)}
    {gs : GramSchmidt α} {trace : Array StepEvent} {p : Progress α}
    (hf : (Options.ofSettings settings).fault = none) (hv : lattice.validateFinite = .ok ())
    (hgs : GramSchmidt.compute lattice (Options.ofSettings settings).tolerance = .ok gs)
    (hrun : runSteps (Options.ofSettings settings) (Options.ofSettings settings).maxSteps
      ⟨lattice, Mat3.identity, gs, 2, 0, 0⟩ #[] = (trace, .ok p)) :
    (reduce lattice settings).result = finish (Options.ofSettings settings) p := by
  simp only [reduce_result, runWith, hf, hv, hgs, hrun]
  rfl

end Run

section SizeReduction

open GramSchmidt

/-- Subtracting `q` times a lower vector `i` from vector `r` keeps the orthogonalisation
valid: the orthogonal vectors do not move, and row `r` of the coefficients moves with the
basis vector. -/
theorem subtractMultiple_orthogonalises {p : Progress ℚ} {r i : Fin 3} (q : ℚ) (hi : i < r)
    (h : Orthogonalises p.basis p.gs 3) :
    Orthogonalises (p.subtractMultiple r i q).basis (p.subtractMultiple r i q).gs 3 := by
  intro l hl
  by_cases hlr : l = r
  · subst hlr
    have hs := h l hl
    refine ⟨fun j hj => ?_, ?_, hs.orthogonal, hs.normSq_eq, hs.normSq_pos⟩
    · have hji : ¬j < i := by omega
      have hne : j ≠ i := by omega
      simp only [Progress.subtractMultiple]
      rw [Mat3.get_def, Mat3.row_setRow_self, Vec3.get_ofFn, if_neg hji, if_neg hne]
      exact hs.coeff_upper j hj
    · have hr := hs.decompose
      have hlow := (h i i.isLt).decompose
      simp only [Progress.subtractMultiple, Mat3.row_setRow_self]
      rw [hr, hlow]
      fin_cases l <;> fin_cases i <;> simp at hi <;> ext <;>
        simp [projection, Mat3.get_def] <;> ring
  · refine (h l hl).congr ?_ ?_ (fun _ _ => rfl) rfl
    · exact Mat3.row_setRow_of_ne _ _ hlr
    · exact Mat3.row_setRow_of_ne _ _ hlr

/-- `p'` comes from `p` by subtracting integer multiples of vectors below `r` from vector `r`,
in the basis and in the integer matrix alike. -/
inductive ReducedFrom (r : Fin 3) (p : Progress ℚ) : Progress ℚ → Prop
  | refl : ReducedFrom r p p
  | subtract {p' : Progress ℚ} (i : Fin 3) (q : ℤ) (hi : i < r) :
      ReducedFrom r p p' → ReducedFrom r p (p'.subtractMultiple r i q)

namespace ReducedFrom

variable {r : Fin 3} {p p' : Progress ℚ}

theorem k_eq (h : ReducedFrom r p p') : p'.k = p.k := by
  induction h with
  | refl => rfl
  | subtract _ _ _ _ ih => exact ih

theorem swaps_eq (h : ReducedFrom r p p') : p'.swaps = p.swaps := by
  induction h with
  | refl => rfl
  | subtract _ _ _ _ ih => exact ih

theorem ortho_eq (h : ReducedFrom r p p') : p'.gs.ortho = p.gs.ortho := by
  induction h with
  | refl => rfl
  | subtract _ _ _ _ ih => exact ih

theorem normSq_eq (h : ReducedFrom r p p') : p'.gs.normSq = p.gs.normSq := by
  induction h with
  | refl => rfl
  | subtract _ _ _ _ ih => exact ih

theorem coeff_row_of_ne (h : ReducedFrom r p p') {j : Fin 3} (hj : j ≠ r) :
    p'.gs.coeff.row j = p.gs.coeff.row j := by
  induction h with
  | refl => rfl
  | subtract _ _ _ _ ih => exact (Mat3.row_setRow_of_ne _ _ hj).trans ih

theorem orthogonalises (h : ReducedFrom r p p') (hp : Orthogonalises p.basis p.gs 3) :
    Orthogonalises p'.basis p'.gs 3 := by
  induction h with
  | refl => exact hp
  | subtract i q hi _ ih => exact subtractMultiple_orthogonalises (q : ℚ) hi ih

end ReducedFrom

namespace Progress

/-- Size reduction against vector `i` changes nothing when the coefficient is at most one
half, and otherwise subtracts the nearest integer multiple. -/
theorem reduceAgainst_fst (r i : Fin 3) (p : Progress ℚ) (n : ℕ) :
    (reduceAgainst r (p, n) i).1 =
      if |p.gs.coeff.get r i| ≤ 1 / 2 then p
      else p.subtractMultiple r i (ratRoundHalfEven (p.gs.coeff.get r i)) := by
  simp only [reduceAgainst, scalar_abs_rat, scalar_le_rat, half_rat, scalar_roundHalfEven_rat,
    decide_eq_true_eq]
  split_ifs <;> rfl

theorem reduceAgainst_reducedFrom {r i : Fin 3} (hi : i < r) {p : Progress ℚ}
    {acc : Progress ℚ × ℕ} (h : ReducedFrom r p acc.1) :
    ReducedFrom r p (reduceAgainst r acc i).1 := by
  obtain ⟨p', n⟩ := acc
  rw [reduceAgainst_fst]
  split_ifs
  · exact h
  · exact h.subtract i _ hi

theorem below_lt {r i : Fin 3} (h : i ∈ below r) : i < r := by
  fin_cases r <;> simp [below] at h <;> rcases h with rfl | rfl <;> decide

theorem sizeReduce_reducedFrom (p : Progress ℚ) (r : Fin 3) :
    ReducedFrom r p (p.sizeReduce r).1 := by
  have hfold : ∀ (l : List (Fin 3)) (acc : Progress ℚ × ℕ), (∀ i ∈ l, i < r) →
      ReducedFrom r p acc.1 → ReducedFrom r p (l.foldl (reduceAgainst r) acc).1 := by
    intro l
    induction l with
    | nil => exact fun _ _ h => h
    | cons i l ih =>
      intro acc hl h
      exact ih _ (fun j hj => hl j (List.mem_cons_of_mem i hj))
        (reduceAgainst_reducedFrom (hl i List.mem_cons_self) h)
  exact hfold (below r) (p, 0) (fun _ => below_lt) ReducedFrom.refl

theorem reduceAgainst_coeff_self (r i : Fin 3) (p : Progress ℚ) (n : ℕ) :
    |(reduceAgainst r (p, n) i).1.gs.coeff.get r i| ≤ 1 / 2 := by
  rw [reduceAgainst_fst]
  split_ifs with hsmall
  · exact hsmall
  · simp only [subtractMultiple, Mat3.get_def, Mat3.row_setRow_self, Vec3.get_ofFn,
      lt_irrefl, if_false, if_true]
    exact abs_sub_ratRoundHalfEven_le _

theorem reduceAgainst_coeff_of_lt {r i j : Fin 3} (hij : i < j) (p : Progress ℚ) (n : ℕ) :
    (reduceAgainst r (p, n) i).1.gs.coeff.get r j = p.gs.coeff.get r j := by
  rw [reduceAgainst_fst]
  split_ifs
  · rfl
  · have hji : ¬j < i := by omega
    have hne : j ≠ i := by omega
    simp only [subtractMultiple]
    rw [Mat3.get_def, Mat3.row_setRow_self, Vec3.get_ofFn, if_neg hji, if_neg hne]
    rfl

/-- After size reduction, every coefficient of vector `r` against a vector below it is at
most one half. -/
theorem sizeReduce_coeff_le (p : Progress ℚ) {r j : Fin 3} (hj : j < r) :
    |(p.sizeReduce r).1.gs.coeff.get r j| ≤ 1 / 2 := by
  fin_cases r <;> fin_cases j <;> simp at hj
  · exact reduceAgainst_coeff_self _ _ _ _
  · -- vector 2 is reduced against vector 1 and then against vector 0
    exact reduceAgainst_coeff_self _ _ _ _
  · change |(reduceAgainst 2 (reduceAgainst 2 (p, 0) 1) 0).1.gs.coeff.get 2 1| ≤ 1 / 2
    rw [reduceAgainst_coeff_of_lt (by decide)]
    exact reduceAgainst_coeff_self _ _ _ _

end Progress

end SizeReduction

end CrystalLattice.Reduction
