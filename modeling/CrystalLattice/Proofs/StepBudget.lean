import CrystalLattice.Proofs.Termination
import CrystalLattice.Proofs.FixedPoints

/-!
# The step budget

Runs under different budgets follow the one trajectory of the loop without a budget
(`Progress.afterSteps`) and differ only in where they are cut off, so the budget decides whether
a reduction finishes and nothing else (`reduce_budget_decides_only_divergence`).
-/

namespace CrystalLattice.Reduction

variable {α : Type} [Scalar α]

namespace Progress

/-- The loop without a step budget, `n` steps on from `p`: the state it reaches, or `none` when
it stops before, with the pointer past the last vector or at a failing step. -/
def afterSteps (o : Options α) : ℕ → Progress α → Option (Progress α)
  | 0, p => some p
  | n + 1, p =>
    if 3 < p.k then none
    else
      match p.step o with
      | .ok (p', _) => afterSteps o n p'
      | .error _ => none

/-- The loop without a budget needs more than `n` steps from `p`: after `n` steps it still
runs, with the pointer within the basis. -/
def NeedsMoreThan (o : Options α) (p : Progress α) (n : ℕ) : Prop :=
  ∃ q, p.afterSteps o n = some q ∧ q.k ≤ 3

variable {o : Options α} {p p' : Progress α} {ev : StepEvent}

@[simp] theorem afterSteps_zero (o : Options α) (p : Progress α) : p.afterSteps o 0 = some p :=
  rfl

/-- One step of the loop without a budget: nothing once the pointer is past the last vector,
and otherwise the loop on from the state the step reaches, or nothing when the step fails. -/
theorem afterSteps_succ (o : Options α) (n : ℕ) (p : Progress α) :
    p.afterSteps o (n + 1) =
      if 3 < p.k then none
      else
        match p.step o with
        | .ok (p', _) => p'.afterSteps o n
        | .error _ => none :=
  rfl

theorem afterSteps_succ_of_lt (hk : 3 < p.k) (n : ℕ) : p.afterSteps o (n + 1) = none := by
  rw [afterSteps_succ, if_pos hk]

theorem afterSteps_succ_of_step (hk : p.k ≤ 3) (h : p.step o = .ok (p', ev)) (n : ℕ) :
    p.afterSteps o (n + 1) = p'.afterSteps o n := by
  rw [afterSteps_succ, if_neg (not_lt.mpr hk), h]

theorem afterSteps_succ_of_step_error {c : Cause α} (hk : p.k ≤ 3) (h : p.step o = .error c)
    (n : ℕ) : p.afterSteps o (n + 1) = none := by
  rw [afterSteps_succ, if_neg (not_lt.mpr hk), h]

theorem needsMoreThan_zero : p.NeedsMoreThan o 0 ↔ p.k ≤ 3 := by
  refine ⟨?_, fun hk => ⟨p, rfl, hk⟩⟩
  rintro ⟨q, hq, hk⟩
  cases hq
  exact hk

theorem not_needsMoreThan_of_eq_none {n : ℕ} (h : p.afterSteps o n = none) :
    ¬p.NeedsMoreThan o n := by
  rintro ⟨q, hq, -⟩
  rw [h] at hq
  cases hq

theorem needsMoreThan_succ_of_step (hk : p.k ≤ 3) (h : p.step o = .ok (p', ev)) (n : ℕ) :
    p.NeedsMoreThan o (n + 1) ↔ p'.NeedsMoreThan o n :=
  exists_congr fun q => by rw [afterSteps_succ_of_step hk h]

/-- The loop without a budget counts its steps and keeps the pointer at `2` or above, raising
it by at most one a step. -/
theorem afterSteps_control (n : ℕ) : ∀ {p q : Progress α}, 2 ≤ p.k →
    p.afterSteps o n = some q → q.steps = p.steps + n ∧ 2 ≤ q.k ∧ q.k ≤ p.k + n := by
  induction n with
  | zero =>
    intro p q hk h
    cases h
    exact ⟨rfl, hk, le_refl _⟩
  | succ n ih =>
    intro p q hk h
    by_cases hlt : 3 < p.k
    · rw [afterSteps_succ_of_lt hlt] at h
      cases h
    cases hs : p.step o with
    | error c =>
      rw [afterSteps_succ_of_step_error (by omega) hs] at h
      cases h
    | ok a =>
      obtain ⟨p₁, ev₁⟩ := a
      rw [afterSteps_succ_of_step (by omega) hs] at h
      obtain ⟨hs₁, hk₁, hk₁'⟩ := step_control hs ⟨hk, by omega⟩
      obtain ⟨hsteps, hkq, hkq'⟩ := ih hk₁ h
      exact ⟨by omega, hkq, by omega⟩

theorem step_maxSteps (m : ℕ) : p.step { o with maxSteps := m } = p.step o := rfl

end Progress

section Runs

open Progress

variable {o : Options α} {p q : Progress α} {trace : Array StepEvent}

/-- A run whose budget is spent while the pointer is within the basis fails for that, with the
counts of its state. -/
theorem runSteps_zero_of_le (hk : p.k ≤ 3) :
    runSteps o 0 p trace =
      (trace, .error (.within .reduce (.ofCause (.diverged p.steps p.swaps)))) := by
  simp [runSteps, not_lt.mpr hk]

theorem runSteps_maxSteps (m n : ℕ) : ∀ (p : Progress α) (trace : Array StepEvent),
    runSteps { o with maxSteps := m } n p trace = runSteps o n p trace := by
  induction n with
  | zero => intro p trace; rfl
  | succ n ih =>
    intro p trace
    simp only [runSteps, step_maxSteps, ih]

/-- A run spends its budget `n` exactly when the loop without a budget needs more than `n`
steps; otherwise it ends with the pointer past the last vector or at a failing step, and a
failing step never reports a spent budget. -/
theorem runSteps_diverged_iff (n : ℕ) : ∀ (p : Progress α) (trace : Array StepEvent),
    (∃ e, (runSteps o n p trace).2 = .error e ∧ e.kind = .divergence) ↔
      p.NeedsMoreThan o n := by
  induction n with
  | zero =>
    intro p trace
    by_cases hk : 3 < p.k
    · simp [runSteps_of_lt hk, needsMoreThan_zero, hk]
    · rw [runSteps_zero_of_le (by omega), needsMoreThan_zero]
      simp only [Except.error.injEq, exists_eq_left', Failure.kind_within, Failure.kind_ofCause]
      exact ⟨fun _ => by omega, fun _ => rfl⟩
  | succ n ih =>
    intro p trace
    by_cases hk : 3 < p.k
    · simp [runSteps_of_lt hk, not_needsMoreThan_of_eq_none (afterSteps_succ_of_lt hk n)]
    cases hs : p.step o with
    | error c =>
      rw [runSteps_succ_of_step_error (by omega) hs]
      simp [not_needsMoreThan_of_eq_none (afterSteps_succ_of_step_error (by omega) hs n),
        step_error_kind hs]
    | ok a =>
      obtain ⟨p', ev⟩ := a
      rw [runSteps_succ_of_step (by omega) hs, ih, needsMoreThan_succ_of_step (by omega) hs]

/-- A run that stops before spending its budget keeps its outcome and its events under every
larger budget. -/
theorem runSteps_add_of_stops (n m : ℕ) : ∀ (p : Progress α) (trace : Array StepEvent),
    ¬p.NeedsMoreThan o n → runSteps o (n + m) p trace = runSteps o n p trace := by
  induction n with
  | zero =>
    intro p trace h
    have hk : 3 < p.k := by
      rw [needsMoreThan_zero] at h
      omega
    rw [runSteps_of_lt hk, runSteps_of_lt hk]
  | succ n ih =>
    intro p trace h
    by_cases hk : 3 < p.k
    · rw [runSteps_of_lt hk, runSteps_of_lt hk]
    rw [show n + 1 + m = n + m + 1 by omega]
    cases hs : p.step o with
    | error c =>
      rw [runSteps_succ_of_step_error (by omega) hs, runSteps_succ_of_step_error (by omega) hs]
    | ok a =>
      obtain ⟨p', ev⟩ := a
      rw [needsMoreThan_succ_of_step (by omega) hs] at h
      rw [runSteps_succ_of_step (by omega) hs, runSteps_succ_of_step (by omega) hs, ih p' _ h]

/-- Every run with a budget of at least `n` begins with the first `n` steps of the loop without
a budget: when these leave the loop at `q`, the run with the budget `n + m` has reported their
`n` events and goes on from `q` with the budget `m`. -/
theorem runSteps_add_of_afterSteps (n : ℕ) : ∀ (p q : Progress α) (trace : Array StepEvent),
    p.afterSteps o n = some q → ∃ evs : Array StepEvent, evs.size = n ∧
      ∀ m, runSteps o (n + m) p trace = runSteps o m q (trace ++ evs) := by
  induction n with
  | zero =>
    intro p q trace h
    cases h
    exact ⟨#[], rfl, fun m => by simp⟩
  | succ n ih =>
    intro p q trace h
    by_cases hk : 3 < p.k
    · rw [afterSteps_succ_of_lt hk] at h
      cases h
    cases hs : p.step o with
    | error c =>
      rw [afterSteps_succ_of_step_error (by omega) hs] at h
      cases h
    | ok a =>
      obtain ⟨p', ev⟩ := a
      rw [afterSteps_succ_of_step (by omega) hs] at h
      obtain ⟨evs, hsize, hrun⟩ := ih p' q (trace.push ev) h
      refine ⟨#[ev] ++ evs, by simp [hsize, Nat.add_comm], fun m => ?_⟩
      rw [show n + 1 + m = n + m + 1 by omega, runSteps_succ_of_step (by omega) hs, hrun m,
        Array.push_eq_append, Array.append_assoc]

/-- A run that ends with the pointer past the last vector does so after some `j` steps of the
loop without a budget, `j` at most its budget, before which the loop was still running. -/
theorem runSteps_eq_ok_afterSteps (n : ℕ) :
    ∀ {p p' : Progress α} {trace trace' : Array StepEvent},
    runSteps o n p trace = (trace', .ok p') →
      ∃ j ≤ n, p.afterSteps o j = some p' ∧ 3 < p'.k ∧ ∀ i < j, p.NeedsMoreThan o i := by
  induction n with
  | zero =>
    intro p p' trace trace' h
    by_cases hk : 3 < p.k
    · rw [runSteps_of_lt hk] at h
      cases h
      exact ⟨0, le_refl _, rfl, hk, fun i hi => absurd hi (Nat.not_lt_zero i)⟩
    · rw [runSteps_zero_of_le (by omega)] at h
      cases h
  | succ n ih =>
    intro p p' trace trace' h
    by_cases hk : 3 < p.k
    · rw [runSteps_of_lt hk] at h
      cases h
      exact ⟨0, Nat.zero_le _, rfl, hk, fun i hi => absurd hi (Nat.not_lt_zero i)⟩
    cases hs : p.step o with
    | error c =>
      rw [runSteps_succ_of_step_error (by omega) hs] at h
      cases h
    | ok a =>
      obtain ⟨p₁, ev⟩ := a
      rw [runSteps_succ_of_step (by omega) hs] at h
      obtain ⟨j, hj, hafter, hk', hrunning⟩ := ih h
      refine ⟨j + 1, by omega, by rw [afterSteps_succ_of_step (by omega) hs, hafter], hk', ?_⟩
      intro i hi
      cases i with
      | zero => exact needsMoreThan_zero.mpr (by omega)
      | succ i => exact (needsMoreThan_succ_of_step (by omega) hs i).mpr (hrunning i (by omega))

/-- Two runs from one state that both end with the pointer past the last vector end alike, with
the same events, whatever their budgets: the longer one stopped where the shorter one did. -/
theorem runSteps_ok_unique {n n' : ℕ} {p q q' : Progress α} {t t' : Array StepEvent}
    (h : runSteps o n p trace = (t, .ok q)) (h' : runSteps o n' p trace = (t', .ok q')) :
    t = t' ∧ q = q' := by
  have hstops : ∀ {m : ℕ} {t₀ : Array StepEvent} {q₀ : Progress α},
      runSteps o m p trace = (t₀, .ok q₀) → ¬p.NeedsMoreThan o m := by
    intro m t₀ q₀ hm hneeds
    obtain ⟨e, he, -⟩ := (runSteps_diverged_iff m p trace).mpr hneeds
    rw [hm] at he
    cases he
  rcases le_total n n' with hle | hle
  · have hsame := runSteps_add_of_stops n (n' - n) p trace (hstops h)
    rw [Nat.add_sub_cancel' hle, h, h'] at hsame
    cases hsame
    exact ⟨rfl, rfl⟩
  · have hsame := runSteps_add_of_stops n' (n - n') p trace (hstops h')
    rw [Nat.add_sub_cancel' hle, h, h'] at hsame
    cases hsame
    exact ⟨rfl, rfl⟩

/-- A run from a state with no steps counted and the pointer at `2` that ends with the pointer
past the last vector took all the steps it counts, at least two: the budget of that count lets
it end alike, and one step less leaves the loop running. -/
theorem runSteps_eq_ok_budget_exact {n : ℕ} {p₀ p : Progress α} {t : Array StepEvent}
    (h₀ : p₀.steps = 0) (hk₀ : p₀.k = 2) (hrun : runSteps o n p₀ #[] = (t, .ok p)) :
    2 ≤ p.steps ∧ runSteps o p.steps p₀ #[] = (t, .ok p) ∧
      p₀.NeedsMoreThan o (p.steps - 1) := by
  obtain ⟨j, hj, hafter, hk, hrunning⟩ := runSteps_eq_ok_afterSteps n hrun
  obtain ⟨hsteps, -, hkj⟩ := afterSteps_control j (by omega) hafter
  have hpj : p.steps = j := by omega
  have hj2 : 2 ≤ j := by omega
  have hstops : ¬p₀.NeedsMoreThan o j := by
    rintro ⟨q, hq, hqk⟩
    rw [hafter] at hq
    cases hq
    omega
  refine ⟨by omega, ?_, by rw [hpj]; exact hrunning _ (by omega)⟩
  rw [hpj, ← hrun, ← runSteps_add_of_stops j (n - j) _ #[] hstops, Nat.add_sub_cancel' hj]

/-- A run that spends its budget `n` has reported `n` events, the first `n` that a run with a
larger budget reports. -/
theorem runSteps_trace_of_needsMoreThan {n n' : ℕ} (hle : n ≤ n') (h : p.NeedsMoreThan o n) :
    (runSteps o n p #[]).1.size = n ∧
      (runSteps o n p #[]).1 = (runSteps o n' p #[]).1.take n := by
  obtain ⟨q, hq, hqk⟩ := h
  obtain ⟨evs, hsize, hrun⟩ := runSteps_add_of_afterSteps n _ q #[] hq
  have hrun₀ : (runSteps o n p #[]).1 = evs := by
    simpa [runSteps_zero_of_le hqk] using congrArg Prod.fst (hrun 0)
  obtain ⟨rest, hrest⟩ := runSteps_trace_append o (n' - n) q (#[] ++ evs)
  have hrun' : (runSteps o n' p #[]).1 = evs ++ rest := by
    rw [← Nat.add_sub_cancel' hle, hrun, hrest, Array.empty_append]
  rw [hrun₀, hrun']
  exact ⟨hsize, by simp [← hsize]⟩

end Runs

section Reduce

variable {o : Options α} {L : Mat3 α}

/-- Once its options and its lattice pass, a reduction runs the loop from the lattice and its
orthogonalisation with the budget of the options, and finishes where the loop ends. -/
theorem runWith_of_compute {gs : GramSchmidt α} (hf : o.fault = none)
    (hv : L.validateFinite = .ok ()) (hg : GramSchmidt.compute L o.tolerance = .ok gs) :
    runWith o L = ((runSteps o o.maxSteps ⟨L, Mat3.identity, gs, 2, 0, 0⟩ #[]).1,
      (runSteps o o.maxSteps ⟨L, Mat3.identity, gs, 2, 0, 0⟩ #[]).2.bind (finish o)) := by
  simp only [runWith, hf, hv, hg]

theorem runWith_of_compute_error {c : Cause α} (hf : o.fault = none)
    (hv : L.validateFinite = .ok ()) (hg : GramSchmidt.compute L o.tolerance = .error c) :
    runWith o L = (#[], .error (.within .reduce (.ofCause c))) := by
  simp only [runWith, hf, hv, hg]

variable {opts : List (Setting α)}

theorem reduce_append_maxSteps {n : ℕ} (hn : 0 < n) :
    reduce L (opts ++ [Setting.maxSteps n]) =
      ⟨if (Options.ofSettings opts).trace then
          some (runWith { Options.ofSettings opts with maxSteps := n } L).1 else none,
        (runWith { Options.ofSettings opts with maxSteps := n } L).2⟩ := by
  have h := Options.ofSettings_append_maxSteps opts (n := (n : ℤ)) (by omega)
  rw [Int.toNat_natCast] at h
  simp only [reduce, h]

/-- Under valid settings, on a finite lattice that can be orthogonalised, the reduction with the
budget `n` given last reports the events of the loop run with that budget, and finishes where
the loop ends. -/
theorem reduce_append_maxSteps_of_compute {gs : GramSchmidt α}
    (hf : (Options.ofSettings opts).fault = none) (hv : L.validateFinite = .ok ())
    (hg : GramSchmidt.compute L (Options.ofSettings opts).tolerance = .ok gs) {n : ℕ}
    (hn : 0 < n) :
    (reduce L (opts ++ [Setting.maxSteps n])).result =
        (runSteps (Options.ofSettings opts) n ⟨L, Mat3.identity, gs, 2, 0, 0⟩ #[]).2.bind
          (finish (Options.ofSettings opts)) ∧
      (reduce L (opts ++ [Setting.maxSteps n])).trace = if (Options.ofSettings opts).trace then
        some (runSteps (Options.ofSettings opts) n ⟨L, Mat3.identity, gs, 2, 0, 0⟩ #[]).1
      else none := by
  rw [reduce_append_maxSteps hn,
    runWith_of_compute (o := { Options.ofSettings opts with maxSteps := n }) hf hv hg]
  exact ⟨by simp only [runSteps_maxSteps]; rfl, by simp only [runSteps_maxSteps]⟩

/-- Under valid settings, a finite lattice that cannot be orthogonalised is refused whatever the
budget. -/
theorem reduce_append_maxSteps_of_compute_error {c : Cause α}
    (hf : (Options.ofSettings opts).fault = none) (hv : L.validateFinite = .ok ())
    (hg : GramSchmidt.compute L (Options.ofSettings opts).tolerance = .error c) {n : ℕ}
    (hn : 0 < n) :
    (reduce L (opts ++ [Setting.maxSteps n])).result = .error (.within .reduce (.ofCause c)) := by
  rw [reduce_append_maxSteps hn,
    runWith_of_compute_error (o := { Options.ofSettings opts with maxSteps := n }) hf hv hg]

/-- Finishing never reports a spent budget, so a finished loop's outcome reports one exactly
when the loop does. -/
theorem bind_finish_diverged_iff (r : Except (Failure α) (Progress α)) :
    (∃ e, r.bind (finish o) = .error e ∧ e.kind = .divergence) ↔
      ∃ e, r = .error e ∧ e.kind = .divergence := by
  cases r with
  | error e => simp [Except.bind]
  | ok p =>
    simp only [Except.bind, reduceCtorEq, false_and, exists_false, iff_false, not_exists,
      not_and]
    exact fun e he => finish_error_kind he

end Reduce

section Budget

open Progress

variable {L : Mat3 α} {opts : List (Setting α)}

/-- The step budget decides whether a reduction finishes, and nothing else: it fails for its
budget `n` exactly when the loop needs more than `n` steps, every budget under which it succeeds
gives one result, and a stopped run reports the first `n` steps. -/
theorem reduce_budget_decides_only_divergence (hf : (Options.ofSettings opts).fault = none)
    (hv : L.validateFinite = .ok ()) :
    (∀ n : ℕ, 0 < n →
      ((∃ e, (reduce L (opts ++ [Setting.maxSteps n])).result = .error e ∧
          e.kind = .divergence) ↔
        ∃ gs, GramSchmidt.compute L (Options.ofSettings opts).tolerance = .ok gs ∧
          NeedsMoreThan (Options.ofSettings opts) ⟨L, Mat3.identity, gs, 2, 0, 0⟩ n)) ∧
    (∀ (n n' : ℕ) (r r' : Result α), 0 < n → 0 < n' →
      (reduce L (opts ++ [Setting.maxSteps n])).result = .ok r →
      (reduce L (opts ++ [Setting.maxSteps n'])).result = .ok r' → r = r') ∧
    (∀ (n : ℕ) (r : Result α), 0 < n →
      (reduce L (opts ++ [Setting.maxSteps n])).result = .ok r →
      2 ≤ r.steps ∧ (reduce L (opts ++ [Setting.maxSteps r.steps])).result = .ok r ∧
      ∃ e, (reduce L (opts ++ [Setting.maxSteps (r.steps - 1 : ℕ)])).result = .error e ∧
        e.kind = .divergence) ∧
    (∀ n n' : ℕ, 0 < n → n ≤ n' →
      (∃ e, (reduce L (opts ++ [Setting.maxSteps n])).result = .error e ∧
        e.kind = .divergence) →
      (∀ t ∈ (reduce L (opts ++ [Setting.maxSteps n])).trace, t.size = n) ∧
      (reduce L (opts ++ [Setting.maxSteps n])).trace =
        (reduce L (opts ++ [Setting.maxSteps n'])).trace.map (·.take n)) := by
  set o := Options.ofSettings opts with ho
  cases hg : GramSchmidt.compute L o.tolerance with
  | error c =>
    have hres := fun {n : ℕ} (hn : 0 < n) => reduce_append_maxSteps_of_compute_error hf hv hg hn
    have hkind : c.kind ≠ .divergence := by simp [GramSchmidt.compute_error_kind hg]
    refine ⟨fun n hn => ?_, fun n n' r r' hn _ h _ => ?_, fun n r hn h => ?_,
      fun n n' hn _ h => ?_⟩
    · simp [hres hn, hkind]
    · rw [hres hn] at h
      cases h
    · rw [hres hn] at h
      cases h
    · obtain ⟨e, he, hk⟩ := h
      rw [hres hn] at he
      cases he
      exact absurd hk (by simpa using hkind)
  | ok gs =>
    have hres := fun {n : ℕ} (hn : 0 < n) => reduce_append_maxSteps_of_compute hf hv hg hn
    have hdiv : ∀ n : ℕ, 0 < n →
        ((∃ e, (reduce L (opts ++ [Setting.maxSteps n])).result = .error e ∧
            e.kind = .divergence) ↔
          NeedsMoreThan o ⟨L, Mat3.identity, gs, 2, 0, 0⟩ n) := by
      intro n hn
      rw [(hres hn).1, bind_finish_diverged_iff, runSteps_diverged_iff]
    have hok : ∀ {n : ℕ} {r : Result α}, 0 < n →
        (reduce L (opts ++ [Setting.maxSteps n])).result = .ok r →
        ∃ t p, runSteps o n ⟨L, Mat3.identity, gs, 2, 0, 0⟩ #[] = (t, .ok p) ∧
          finish o p = .ok r := by
      intro n r hn h
      rw [(hres hn).1] at h
      rcases hrun : runSteps o n ⟨L, Mat3.identity, gs, 2, 0, 0⟩ #[] with ⟨t, _ | p⟩
      · rw [hrun] at h
        cases h
      · rw [hrun] at h
        exact ⟨t, p, rfl, h⟩
    refine ⟨fun n hn => ?_, ?_, ?_, ?_⟩
    · rw [hdiv n hn]
      simp
    · intro n n' r r' hn hn' h h'
      obtain ⟨t, p, hrun, hfin⟩ := hok hn h
      obtain ⟨t', p', hrun', hfin'⟩ := hok hn' h'
      obtain ⟨-, rfl⟩ := runSteps_ok_unique hrun hrun'
      rw [hfin] at hfin'
      cases hfin'
      rfl
    · intro n r hn h
      obtain ⟨t, p, hrun, hfin⟩ := hok hn h
      obtain ⟨hsteps, hrunp, hneeds⟩ := runSteps_eq_ok_budget_exact rfl rfl hrun
      obtain ⟨inv, -, hr⟩ := finish_eq_ok hfin
      have hrp : r.steps = p.steps := by rw [hr]
      rw [hrp]
      refine ⟨hsteps, ?_, (hdiv _ (by omega)).mpr hneeds⟩
      rw [(hres (by omega)).1, hrunp]
      exact hfin
    · intro n n' hn hle h
      obtain ⟨hsize, htake⟩ := runSteps_trace_of_needsMoreThan hle ((hdiv n hn).mp h)
      rw [(hres hn).2, (hres (by omega)).2]
      refine ⟨fun t ht => ?_, ?_⟩
      · split at ht
        · cases ht
          exact hsize
        · cases ht
      · split
        · simpa using htake
        · rfl

/-- A triclinic cell, traced: its settings carry no fault and its entries
are finite, so its budget decides only whether its reduction finishes. -/
theorem triclinic_budget_decides_only_divergence :
    (Options.ofSettings [.trace] : Options Float).fault = none ∧
      (⟨⟨2, 0, 0⟩, ⟨0.1, 1.8, 0⟩, ⟨0.1, 0.2, 0.9⟩⟩ : Mat3 Float).validateFinite =
        .ok () ∧
      (∀ n : ℕ, 0 < n →
        ((∃ e, (reduce (⟨⟨2, 0, 0⟩, ⟨0.1, 1.8, 0⟩, ⟨0.1, 0.2, 0.9⟩⟩ : Mat3 Float)
              ([Setting.trace] ++ [Setting.maxSteps n])).result = .error e ∧
            e.kind = .divergence) ↔
          ∃ gs, GramSchmidt.compute
              (⟨⟨2, 0, 0⟩, ⟨0.1, 1.8, 0⟩, ⟨0.1, 0.2, 0.9⟩⟩ : Mat3 Float)
              (Options.ofSettings [.trace] : Options Float).tolerance = .ok gs ∧
            NeedsMoreThan (Options.ofSettings [.trace])
              ⟨(⟨⟨2, 0, 0⟩, ⟨0.1, 1.8, 0⟩, ⟨0.1, 0.2, 0.9⟩⟩ : Mat3 Float),
                Mat3.identity, gs, 2, 0, 0⟩ n)) ∧
      (∀ (n n' : ℕ) (r r' : Result Float), 0 < n → 0 < n' →
        (reduce (⟨⟨2, 0, 0⟩, ⟨0.1, 1.8, 0⟩, ⟨0.1, 0.2, 0.9⟩⟩ : Mat3 Float)
          ([Setting.trace] ++ [Setting.maxSteps n])).result = .ok r →
        (reduce (⟨⟨2, 0, 0⟩, ⟨0.1, 1.8, 0⟩, ⟨0.1, 0.2, 0.9⟩⟩ : Mat3 Float)
          ([Setting.trace] ++ [Setting.maxSteps n'])).result = .ok r' → r = r') ∧
      (∀ (n : ℕ) (r : Result Float), 0 < n →
        (reduce (⟨⟨2, 0, 0⟩, ⟨0.1, 1.8, 0⟩, ⟨0.1, 0.2, 0.9⟩⟩ : Mat3 Float)
          ([Setting.trace] ++ [Setting.maxSteps n])).result = .ok r →
        2 ≤ r.steps ∧
          (reduce (⟨⟨2, 0, 0⟩, ⟨0.1, 1.8, 0⟩, ⟨0.1, 0.2, 0.9⟩⟩ : Mat3 Float)
            ([Setting.trace] ++ [Setting.maxSteps r.steps])).result = .ok r ∧
          ∃ e, (reduce (⟨⟨2, 0, 0⟩, ⟨0.1, 1.8, 0⟩, ⟨0.1, 0.2, 0.9⟩⟩ : Mat3 Float)
              ([Setting.trace] ++ [Setting.maxSteps (r.steps - 1 : ℕ)])).result = .error e ∧
            e.kind = .divergence) ∧
      (∀ n n' : ℕ, 0 < n → n ≤ n' →
        (∃ e, (reduce (⟨⟨2, 0, 0⟩, ⟨0.1, 1.8, 0⟩, ⟨0.1, 0.2, 0.9⟩⟩ : Mat3 Float)
            ([Setting.trace] ++ [Setting.maxSteps n])).result = .error e ∧
          e.kind = .divergence) →
        (∀ t ∈ (reduce
            (⟨⟨2, 0, 0⟩, ⟨0.1, 1.8, 0⟩, ⟨0.1, 0.2, 0.9⟩⟩ : Mat3 Float)
            ([Setting.trace] ++ [Setting.maxSteps n])).trace, t.size = n) ∧
        (reduce (⟨⟨2, 0, 0⟩, ⟨0.1, 1.8, 0⟩, ⟨0.1, 0.2, 0.9⟩⟩ : Mat3 Float)
            ([Setting.trace] ++ [Setting.maxSteps n])).trace =
          (reduce (⟨⟨2, 0, 0⟩, ⟨0.1, 1.8, 0⟩, ⟨0.1, 0.2, 0.9⟩⟩ : Mat3 Float)
            ([Setting.trace] ++ [Setting.maxSteps n'])).trace.map (·.take n)) :=
  ⟨rfl, by decide, reduce_budget_decides_only_divergence rfl (by decide)⟩

end Budget

end CrystalLattice.Reduction
