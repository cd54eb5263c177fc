import CrystalLattice.Proofs.StepBudget

/-!
# The steps a reduction reports

The reported events are numbered without gap, each with its pointer and swap count, and a run
that ends took two steps more than its swaps and its swaps at pointer `3`. This accounting is an
invariant of the loop (`TraceAccounts`).
-/

namespace CrystalLattice.Reduction

variable {α : Type} [Scalar α]

namespace Progress

/-- What a step at pointer `k ∈ {2, 3}` reports: its number, the pointer before it, and the
swaps after it. It counts itself, and either advances the pointer or swaps and leaves the
pointer at `2`, counting the swap. -/
theorem step_report {o : Options α} {p p' : Progress α} {ev : StepEvent}
    (h : p.step o = .ok (p', ev)) (hk : 2 ≤ p.k ∧ p.k ≤ 3) :
    ev.iteration = p.steps + 1 ∧ ev.k = p.k ∧ ev.swaps = p'.swaps ∧ p'.steps = p.steps + 1 ∧
      ((ev.action = .advance ∧ p'.k = p.k + 1 ∧ p'.swaps = p.swaps) ∨
        (ev.action = .swap ∧ p'.k = 2 ∧ p'.swaps = p.swaps + 1)) := by
  obtain ⟨hk₁, hs₁, hw₁⟩ := sizeReduce_control { p with steps := p.steps + 1 } ⟨p.k - 1, by omega⟩
  simp only [step, dif_pos hk] at h
  split at h
  · cases h
    simp only at hk₁ hs₁ hw₁
    simp [hk₁, hs₁, hw₁]
  · obtain ⟨gs, -, hp⟩ := bind_eq_ok h
    cases hp
    simp only at hk₁ hs₁ hw₁
    simp only [hk₁, hs₁, hw₁, true_and, and_true, reduceCtorEq, false_and, false_or]
    split_ifs <;> omega

end Progress

section Counts

def swapsReported (evs : List StepEvent) : ℕ := evs.countP fun ev => decide (ev.action = .swap)

def advancesReported (evs : List StepEvent) : ℕ :=
  evs.countP fun ev => decide (ev.action = .advance)

/-- The number of reported swaps that moved the pointer back: those at pointer `3`. -/
def backStepsReported (evs : List StepEvent) : ℕ :=
  evs.countP fun ev => decide (ev.action = .swap ∧ ev.k = 3)

variable (evs : List StepEvent) (ev : StepEvent)

theorem swapsReported_concat :
    swapsReported (evs ++ [ev]) = swapsReported evs + if ev.action = .swap then 1 else 0 := by
  simp [swapsReported, List.countP_append]

theorem advancesReported_concat :
    advancesReported (evs ++ [ev]) =
      advancesReported evs + if ev.action = .advance then 1 else 0 := by
  simp [advancesReported, List.countP_append]

theorem backStepsReported_concat :
    backStepsReported (evs ++ [ev]) =
      backStepsReported evs + if ev.action = .swap ∧ ev.k = 3 then 1 else 0 := by
  simp [backStepsReported, List.countP_append]

theorem advancesReported_add_swapsReported :
    advancesReported evs + swapsReported evs = evs.length := by
  rw [List.length_eq_countP_add_countP fun ev => decide (ev.action = .advance)]
  congr 1
  apply List.countP_congr
  intro e _
  cases e.action <;> simp

end Counts

/-- What the events reported so far say about the loop: one event per counted step, numbered from
one, with the running swap count, and a pointer that moved up once per advance and back once per
swap at pointer `3`. -/
structure TraceAccounts (evs : Array StepEvent) (p : Progress α) : Prop where
  k_ge : 2 ≤ p.k
  k_le : p.k ≤ 4
  iterations : evs.toList.map StepEvent.iteration = List.range' 1 p.steps
  pointers : ∀ ev ∈ evs.toList, ev.k = 2 ∨ ev.k = 3
  running : ∀ (i : ℕ) (hi : i < evs.size),
    evs[i].swaps = swapsReported (evs.toList.take (i + 1))
  swaps_eq : p.swaps = swapsReported evs.toList
  pointer_eq : p.k + backStepsReported evs.toList = 2 + advancesReported evs.toList
  last_advance : 3 < p.k → ∀ ev ∈ evs.back?, ev.action = .advance

namespace TraceAccounts

variable {o : Options α} {evs : Array StepEvent} {p p' : Progress α} {ev : StepEvent}

theorem start (lattice : Mat3 α) (gs : GramSchmidt α) :
    TraceAccounts #[] (⟨lattice, Mat3.identity, gs, 2, 0, 0⟩ : Progress α) where
  k_ge := le_rfl
  k_le := by simp
  iterations := rfl
  pointers := by simp
  running := by simp
  swaps_eq := rfl
  pointer_eq := rfl
  last_advance := by simp

/-- One step keeps the accounts, with its event reported last. -/
theorem push (h : TraceAccounts evs p) (hk : p.k ≤ 3) (hs : p.step o = .ok (p', ev)) :
    TraceAccounts (evs.push ev) p' := by
  obtain ⟨hit, hevk, hevs, hsteps, hcase⟩ := Progress.step_report hs ⟨h.k_ge, hk⟩
  have hk₀ := h.k_ge
  have hswaps : p'.swaps = swapsReported (evs.toList ++ [ev]) := by
    rw [swapsReported_concat, ← h.swaps_eq]
    rcases hcase with ⟨ha, -, hw⟩ | ⟨ha, -, hw⟩ <;> simp [ha, hw]
  refine ⟨?_, ?_, ?_, ?_, ?_, ?_, ?_, ?_⟩
  · rcases hcase with ⟨-, hk', -⟩ | ⟨-, hk', -⟩ <;> omega
  · rcases hcase with ⟨-, hk', -⟩ | ⟨-, hk', -⟩ <;> omega
  · rw [Array.toList_push, List.map_append, h.iterations, hsteps, List.range'_1_concat]
    simp [hit, Nat.add_comm]
  · intro e he
    rw [Array.toList_push, List.mem_append, List.mem_singleton] at he
    rcases he with he | rfl
    · exact h.pointers e he
    · omega
  · -- the earlier events keep their counts; the new one counts the swaps up to itself
    intro i hi
    rw [Array.size_push] at hi
    rcases Nat.lt_succ_iff_lt_or_eq.mp hi with hlt | rfl
    · rw [Array.getElem_push_lt hlt, h.running i hlt, Array.toList_push,
        List.take_append_of_le_length (by simpa using hlt)]
    · rw [Array.getElem_push_eq, hevs, hswaps, Array.toList_push,
        List.take_of_length_le (by simp)]
  · rw [Array.toList_push]
    exact hswaps
  · have hpointer := h.pointer_eq
    rw [Array.toList_push, backStepsReported_concat, advancesReported_concat]
    rcases hcase with ⟨ha, hk', -⟩ | ⟨ha, hk', -⟩
    · simp only [ha, reduceCtorEq, false_and, if_false, if_true]
      omega
    · simp only [ha, hevk, true_and, reduceCtorEq, if_false]
      split_ifs <;> omega
  · intro hk' e he
    rw [Array.back?_push, Option.mem_some_iff] at he
    subst he
    rcases hcase with ⟨ha, -, -⟩ | ⟨-, hk'', -⟩
    · exact ha
    · omega

omit [Scalar α] in
/-- At the end of a run the accounts give the whole count: two steps more than the swaps and
the swaps at pointer `3` together, the last of them an advance that reports every swap. -/
theorem finished (h : TraceAccounts evs p) (hk : 3 < p.k) :
    p.steps = 2 + p.swaps + backStepsReported evs.toList ∧
      ∃ last, evs.back? = some last ∧ last.action = .advance ∧ last.swaps = p.swaps := by
  have hlen : evs.size = p.steps := by
    simpa using congrArg List.length h.iterations
  have hsum := advancesReported_add_swapsReported evs.toList
  have hpointer := h.pointer_eq
  have hk4 := h.k_le
  rw [Array.length_toList, hlen] at hsum
  refine ⟨by rw [h.swaps_eq]; omega, ?_⟩
  have hne : 0 < evs.size := by rw [hlen]; omega
  have hback : evs.back? = some evs[evs.size - 1] := by
    rw [Array.back?_eq_getElem?, Array.getElem?_eq_getElem]
  refine ⟨evs[evs.size - 1], hback, h.last_advance hk _ hback, ?_⟩
  rw [h.running _ (by omega), Nat.sub_add_cancel hne, ← Array.length_toList,
    List.take_length, h.swaps_eq]

end TraceAccounts

section Runs

variable {o : Options α}

/-- A property of the events reported and the state that every step keeps holds when a run
ends, and the run ends with the pointer past the last vector. -/
theorem runSteps_preserves_reported (Inv : Array StepEvent → Progress α → Prop)
    (hstep : ∀ evs p p' ev, Inv evs p → p.k ≤ 3 → p.step o = .ok (p', ev) →
      Inv (evs.push ev) p') (budget : ℕ) :
    ∀ (p : Progress α) (evs evs' : Array StepEvent) (p' : Progress α),
      Inv evs p → runSteps o budget p evs = (evs', .ok p') → Inv evs' p' ∧ 3 < p'.k := by
  induction budget with
  | zero =>
    intro p evs evs' p' hp h
    by_cases hk : 3 < p.k
    · rw [runSteps_of_lt hk] at h
      cases h
      exact ⟨hp, hk⟩
    · rw [runSteps_zero_of_le (by omega)] at h
      cases h
  | succ n ih =>
    intro p evs evs' p' hp h
    by_cases hk : 3 < p.k
    · rw [runSteps_of_lt hk] at h
      cases h
      exact ⟨hp, hk⟩
    cases hs : p.step o with
    | error c =>
      rw [runSteps_succ_of_step_error (by omega) hs] at h
      cases h
    | ok q =>
      obtain ⟨p₁, ev⟩ := q
      rw [runSteps_succ_of_step (by omega) hs] at h
      exact ih p₁ _ evs' p' (hstep evs p p₁ ev hp (by omega) hs) h

/-- A reduction fails for its budget only in its loop, having reported as many events as the
budget allowed. -/
theorem runWith_trace_size_of_divergence {settings : List (Setting α)} {L : Mat3 α}
    {e : Failure α} (h : (runWith (Options.ofSettings settings) L).2 = .error e)
    (hk : e.kind = .divergence) :
    (runWith (Options.ofSettings settings) L).1.size = (Options.ofSettings settings).maxSteps := by
  set o := Options.ofSettings settings with ho
  cases hf : o.fault with
  | some c =>
    simp only [runWith, hf, Except.error.injEq] at h
    rw [← h, Failure.kind_ofCause, Options.ofSettings_fault_kind (ho ▸ hf)] at hk
    cases hk
  | none =>
    cases hv : L.validateFinite with
    | error e₀ =>
      simp only [runWith, hf, hv, Except.error.injEq] at h
      rw [← h, Failure.kind_within, Mat3.validateFinite_error_kind hv] at hk
      cases hk
    | ok u =>
      cases hg : GramSchmidt.compute L o.tolerance with
      | error c =>
        rw [runWith_of_compute_error hf hv hg, Except.error.injEq] at h
        rw [← h, Failure.kind_within, Failure.kind_ofCause,
          GramSchmidt.compute_error_kind hg] at hk
        cases hk
      | ok gs =>
        rw [runWith_of_compute hf hv hg] at h ⊢
        have hneeds := (runSteps_diverged_iff o.maxSteps _ #[]).mp
          ((bind_finish_diverged_iff _).mp ⟨e, h, hk⟩)
        exact (runSteps_trace_of_needsMoreThan le_rfl hneeds).1

end Runs

/-- Asking for tracing anywhere among the settings turns it on: a later setting never turns it
off. -/
theorem Options.trace_foldl_apply : ∀ (l : List (Setting α)) (o : Options α),
    o.trace = true ∨ Setting.trace ∈ l → (l.foldl Options.apply o).trace = true := by
  intro l
  induction l with
  | nil =>
    intro o h
    simpa using h
  | cons s l ih =>
    intro o h
    apply ih
    cases s with
    | trace => exact .inl rfl
    | delta d =>
      simp only [Options.apply]
      split_ifs <;> simpa using h
    | maxSteps n =>
      simp only [Options.apply]
      split_ifs <;> simpa using h
    | tolerance t =>
      simp only [Options.apply]
      split_ifs <;> simpa using h

/-- The events of a traced reduction account for its result: numbered `1, 2, …`, the last an
advance, two more than the swaps and the swaps at pointer `3` together. -/
structure ReportsResult (events : Array StepEvent) (res : Result α) : Prop where
  size_eq : events.size = res.steps
  iterations : events.toList.map StepEvent.iteration = List.range' 1 res.steps
  pointers : ∀ ev ∈ events.toList, ev.k = 2 ∨ ev.k = 3
  running : ∀ (i : ℕ) (hi : i < events.size),
    events[i].swaps = swapsReported (events.toList.take (i + 1))
  last : ∃ last, events.back? = some last ∧ last.action = .advance ∧ last.swaps = res.swaps
  steps_eq : res.steps = 2 + res.swaps + backStepsReported events.toList

/-- A traced reduction reports its steps, and they account for its run: a result it returns is
accounted for by its events, and a reduction stopped by its budget reported exactly as many
events as the budget. -/
theorem reduce_trace_accounting {L : Mat3 α} {settings : List (Setting α)}
    (htrace : Setting.trace ∈ settings) :
    ∃ events : Array StepEvent, (reduce L settings).trace = some events ∧
      (∀ res, (reduce L settings).result = .ok res → ReportsResult events res) ∧
      (∀ e, (reduce L settings).result = .error e → e.kind = .divergence →
        events.size = (Options.ofSettings settings).maxSteps) := by
  have hon : (Options.ofSettings settings).trace = true :=
    Options.trace_foldl_apply settings _ (.inr htrace)
  refine ⟨(runWith (Options.ofSettings settings) L).1, by rw [reduce_trace, if_pos hon], ?_,
    fun e he hk => runWith_trace_size_of_divergence (by rwa [reduce_result] at he) hk⟩
  intro res hres
  rw [reduce_result] at hres
  obtain ⟨gs, evs, p, hgs, hrun, hfin⟩ := runWith_eq_ok hres
  obtain ⟨inv, -, rfl⟩ := finish_eq_ok hfin
  have hf : (Options.ofSettings settings).fault = none := by
    cases hf : (Options.ofSettings settings).fault with
    | none => rfl
    | some c => simp [runWith, hf] at hres
  have hv : L.validateFinite = .ok () := by
    cases hv : L.validateFinite with
    | ok u => rfl
    | error e₀ => simp [runWith, hf, hv] at hres
  rw [runWith_of_compute hf hv hgs, hrun]
  obtain ⟨hacc, hk⟩ := runSteps_preserves_reported TraceAccounts
    (fun _ _ _ _ h hk hs => h.push hk hs) _ _ _ _ _ (TraceAccounts.start L gs) hrun
  obtain ⟨hsteps, hlast⟩ := hacc.finished hk
  exact ⟨by simpa using congrArg List.length hacc.iterations, hacc.iterations, hacc.pointers,
    hacc.running, hlast, hsteps⟩

/-- A triclinic cell, reduced with tracing: its events account for the
reduction. -/
theorem tracedTriclinic_trace_accounting :
    Setting.trace ∈ ([.trace] : List (Setting Float)) ∧
      ∃ events : Array StepEvent,
        (reduce (⟨⟨2, 0, 0⟩, ⟨0.1, 1.8, 0⟩, ⟨0.1, 0.2, 0.9⟩⟩ : Mat3 Float) [.trace]).trace =
          some events ∧
        (∀ res, (reduce (⟨⟨2, 0, 0⟩, ⟨0.1, 1.8, 0⟩, ⟨0.1, 0.2, 0.9⟩⟩ : Mat3 Float)
          [.trace]).result = .ok res → ReportsResult events res) ∧
        (∀ e, (reduce (⟨⟨2, 0, 0⟩, ⟨0.1, 1.8, 0⟩, ⟨0.1, 0.2, 0.9⟩⟩ : Mat3 Float)
          [.trace]).result = .error e → e.kind = .divergence →
          events.size = (Options.ofSettings ([.trace] : List (Setting Float))).maxSteps) :=
  ⟨List.mem_singleton_self _, reduce_trace_accounting (List.mem_singleton_self _)⟩

end CrystalLattice.Reduction
