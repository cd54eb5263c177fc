import CrystalLattice.Crystal.Document
import CrystalLattice.Proofs.Binary64Monotone
import CrystalLattice.Proofs.ClosingCheck
import CrystalLattice.Proofs.StructureCache

/-!
# Settings

Read from the first, binary64 settings keep for each kind the value of the last one given and
record as fault that of the last one out of range, which ends a reduction before its lattice is
read (`reduce_settings_last_wins`). A document's own `delta` is the first setting.
-/

namespace CrystalLattice.Reduction

namespace Setting

variable {α : Type}

def delta? : Setting α → Option α
  | .delta d => some d
  | _ => none

def maxSteps? : Setting α → Option Nat
  | .maxSteps n => some n.toNat
  | _ => none

def tolerance? : Setting α → Option α
  | .tolerance t => some t
  | _ => none

def trace? : Setting α → Option Bool
  | .trace => some true
  | _ => none

/-- The fault of a binary64 setting out of its range: a Lovász parameter that is NaN or not in
`(1/4, 1)`, a step budget that is not positive, a tolerance that is not finite or not in
`[0, 1)`. -/
def fault : Setting Float → Option (Cause Float)
  | .delta d => if d.isNaN ∨ d ≤ 0.25 ∨ 1 ≤ d then some (.badDelta d) else none
  | .maxSteps n => if n ≤ 0 then some (.badMaxSteps n) else none
  | .tolerance t => if ¬t.isFinite ∨ t < 0 ∨ 1 ≤ t then some (.badTolerance t) else none
  | .trace => none

end Setting

/-- The value given by the last of the settings that give one. -/
def lastGiven {α β : Type} (pick : Setting α → Option β) (settings : List (Setting α)) :
    Option β :=
  (settings.filterMap pick).getLast?

section Fold

variable {α β γ : Type} (pick : Setting α → Option β)

theorem lastGiven_cons (s : Setting α) (l : List (Setting α)) :
    lastGiven pick (s :: l) = (lastGiven pick l).or (pick s) := by
  unfold lastGiven
  cases h : pick s with
  | none => rw [List.filterMap_cons_none h, Option.or_none]
  | some b =>
    rw [List.filterMap_cons_some h, List.getLast?_cons]
    cases (l.filterMap pick).getLast? <;> rfl

theorem lastGiven_eq_none_iff {l : List (Setting α)} :
    lastGiven pick l = none ↔ ∀ s ∈ l, pick s = none := by
  simp [lastGiven]

theorem lastGiven_map (g : β → γ) (l : List (Setting α)) :
    lastGiven (fun s => (pick s).map g) l = (lastGiven pick l).map g := by
  rw [lastGiven, ← List.map_filterMap, List.getLast?_map, lastGiven]

variable [Scalar α]

/-- Read from the first, settings leave in a field of the options the value of the last setting
that gives one, provided each setting either gives the field its value or leaves it alone. -/
theorem Options.foldl_apply_field (get : Options α → β) (l : List (Setting α))
    (hstep : ∀ s ∈ l, ∀ o : Options α, get (o.apply s) = (pick s).getD (get o))
    (o : Options α) : get (l.foldl Options.apply o) = (lastGiven pick l).getD (get o) := by
  induction l generalizing o with
  | nil => rfl
  | cons s l ih =>
    rw [List.foldl_cons, ih (fun s' hs' => hstep s' (List.mem_cons_of_mem s hs')),
      hstep s List.mem_cons_self, lastGiven_cons]
    cases lastGiven pick l <;> rfl

end Fold

section Binary64

theorem deltaValid_eq_false_iff (d : Float) :
    deltaValid d = false ↔ d.isNaN ∨ d ≤ 0.25 ∨ 1 ≤ d := by
  show (!(d.isNaN || decide (d ≤ 0.25) || decide (1 ≤ d))) = false ↔ _
  simp only [Bool.not_eq_false', Bool.or_eq_true, decide_eq_true_eq, or_assoc]

theorem toleranceValid_eq_false_iff (t : Float) :
    toleranceValid t = false ↔ ¬t.isFinite ∨ t < 0 ∨ 1 ≤ t := by
  show (!(t.isNaN || !t.isFinite || decide (t < 0) || decide (1 ≤ t))) = false ↔ _
  cases hf : t.isFinite
  · simp
  · simp only [Binary64.isNaN_eq_false_of_isFinite hf, Bool.not_true, Bool.not_eq_false',
      Bool.or_eq_true, decide_eq_true_eq, Bool.false_eq_true, or_false, not_true, false_or]

/-- One binary64 setting: a setting out of its range records its fault, and any other gives its
value to its own field. -/
theorem Options.apply_eq (o : Options Float) (s : Setting Float) :
    o.apply s = match s.fault with
      | some c => { o with fault := some c }
      | none => ⟨s.delta?.getD o.delta, s.maxSteps?.getD o.maxSteps,
          s.tolerance?.getD o.tolerance, s.trace?.getD o.trace, o.fault⟩ := by
  cases s with
  | delta d =>
    have hv := deltaValid_eq_false_iff d
    cases hd : deltaValid d with
    | false =>
      simp only [Options.apply, Setting.fault, hd, if_pos (hv.mp hd)]
      rfl
    | true =>
      have hok : ¬(d.isNaN ∨ d ≤ 0.25 ∨ 1 ≤ d) := fun h => by simp [hv.mpr h] at hd
      simp only [Options.apply, Setting.fault, hd, if_neg hok]
      rfl
  | maxSteps n =>
    by_cases hn : n ≤ 0
    · simp only [Options.apply, Setting.fault, if_pos hn]
    · simp only [Options.apply, Setting.fault, if_neg hn]
      rfl
  | tolerance t =>
    have hv := toleranceValid_eq_false_iff t
    cases ht : toleranceValid t with
    | false =>
      simp only [Options.apply, Setting.fault, ht, if_pos (hv.mp ht)]
      rfl
    | true =>
      have hok : ¬(¬t.isFinite ∨ t < 0 ∨ 1 ≤ t) := fun h => by simp [hv.mpr h] at ht
      simp only [Options.apply, Setting.fault, ht, if_neg hok]
      rfl
  | trace => rfl

theorem Options.apply_fault (o : Options Float) (s : Setting Float) :
    (o.apply s).fault = (s.fault.map some).getD o.fault := by
  rw [Options.apply_eq]
  cases s.fault <;> rfl

theorem Options.apply_of_fault_eq_none {o : Options Float} {s : Setting Float}
    (hs : s.fault = none) :
    o.apply s = ⟨s.delta?.getD o.delta, s.maxSteps?.getD o.maxSteps,
      s.tolerance?.getD o.tolerance, s.trace?.getD o.trace, o.fault⟩ := by
  rw [Options.apply_eq, hs]

/-- The fault of the options is that of the last setting out of its range: a later valid
setting does not clear it. -/
theorem Options.ofSettings_fault (settings : List (Setting Float)) :
    (Options.ofSettings settings).fault = lastGiven Setting.fault settings := by
  have h := Options.foldl_apply_field (fun s => s.fault.map some) Options.fault settings
    (fun s _ o => Options.apply_fault o s) Options.default
  rw [lastGiven_map] at h
  rw [Options.ofSettings, h]
  cases lastGiven Setting.fault settings <;> rfl

theorem Options.ofSettings_fault_eq_none_iff {settings : List (Setting Float)} :
    (Options.ofSettings settings).fault = none ↔ ∀ s ∈ settings, s.fault = none := by
  rw [Options.ofSettings_fault, lastGiven_eq_none_iff]

/-- With every setting in its range, each field of the options holds the value of the last
setting of its kind, the default when there is none, and no fault is recorded. -/
theorem Options.ofSettings_eq {settings : List (Setting Float)}
    (hvalid : ∀ s ∈ settings, s.fault = none) :
    Options.ofSettings settings =
      ⟨(lastGiven Setting.delta? settings).getD defaultDelta,
        (lastGiven Setting.maxSteps? settings).getD defaultMaxSteps,
        (lastGiven Setting.tolerance? settings).getD defaultTolerance,
        (lastGiven Setting.trace? settings).getD false, none⟩ := by
  have hstep : ∀ s ∈ settings, ∀ o : Options Float, o.apply s = ⟨s.delta?.getD o.delta,
      s.maxSteps?.getD o.maxSteps, s.tolerance?.getD o.tolerance, s.trace?.getD o.trace,
      o.fault⟩ := fun s hs _ => Options.apply_of_fault_eq_none (hvalid s hs)
  have hd : (Options.ofSettings settings).delta = _ :=
    Options.foldl_apply_field _ Options.delta settings (fun s hs o => by rw [hstep s hs]) _
  have hn : (Options.ofSettings settings).maxSteps = _ :=
    Options.foldl_apply_field _ Options.maxSteps settings (fun s hs o => by rw [hstep s hs]) _
  have ht : (Options.ofSettings settings).tolerance = _ :=
    Options.foldl_apply_field _ Options.tolerance settings (fun s hs o => by rw [hstep s hs]) _
  have htr : (Options.ofSettings settings).trace = _ :=
    Options.foldl_apply_field _ Options.trace settings (fun s hs o => by rw [hstep s hs]) _
  have hf := Options.ofSettings_fault_eq_none_iff.mpr hvalid
  cases h : Options.ofSettings settings
  rw [h] at hd hn ht htr hf
  simp only [Options.mk.injEq]
  exact ⟨hd, hn, ht, htr, hf⟩

end Binary64

section Faults

variable {α : Type} [Scalar α]

theorem checkReduced_kind_of_valid {basis : Mat3 α} {δ s tol : α} {e : Failure α}
    (hδ : deltaValid δ = true) (hs : slackValid s = true)
    (h : checkReduced basis δ s tol = .error e) : e.kind ≠ .optionViolation := by
  rcases checkReduced_error_cases h with ⟨hbad, -⟩ | ⟨hbad, -⟩ | ⟨hk, -⟩
  · simp [hδ] at hbad
  · simp [hs] at hbad
  · exact hk

theorem finish_kind_of_valid {o : Options α} {p : Progress α} {e : Failure α}
    (hδ : deltaValid o.delta = true) (hs : slackValid (checkSlack : α) = true)
    (h : finish o p = .error e) : e.kind ≠ .optionViolation := by
  rcases finish_error_cases h with ⟨e₀, he₀, rfl⟩ | ⟨e₀, he₀, rfl⟩
  · rcases Mat3.inverse_error_kind he₀ with hk | hk <;> simp [hk]
  · simpa using checkReduced_kind_of_valid hδ hs he₀

theorem runWith_kind_of_valid {o : Options α} {L : Mat3 α} {e : Failure α} (hf : o.fault = none)
    (hδ : deltaValid o.delta = true) (hs : slackValid (checkSlack : α) = true)
    (h : (runWith o L).2 = .error e) : e.kind ≠ .optionViolation := by
  simp only [runWith, hf] at h
  split at h
  · rename_i e₀ hv
    cases h
    simp [Mat3.validateFinite_error_kind hv]
  split at h
  · rename_i c hc
    cases h
    simp [GramSchmidt.compute_error_kind hc]
  rename_i gs hgs
  rcases hrun : runSteps o o.maxSteps ⟨L, Mat3.identity, gs, 2, 0, 0⟩ #[] with ⟨trace, r⟩
  rw [hrun] at h
  cases r with
  | error e' =>
    cases h
    rcases runSteps_error_kind _ _ _ _ _ hrun with hk | hk <;> simp [hk]
  | ok p => exact finish_kind_of_valid hδ hs h

end Faults

section Reduce

variable {lattice : Mat3 Float} {settings : List (Setting Float)}

theorem Options.deltaValid_ofSettings (settings : List (Setting Float)) :
    deltaValid (Options.ofSettings settings).delta = true :=
  Options.deltaValid_foldl settings _ (by decide)

/-- A setting out of its range ends a reduction before its lattice is looked at: no step is
reported, and the failure is that of the last such setting. -/
theorem reduce_of_lastGiven_fault {c : Cause Float} (h : lastGiven Setting.fault settings = some c)
    (lattice : Mat3 Float) :
    reduce lattice settings =
      ⟨if (Options.ofSettings settings).trace then some #[] else none, .error (.ofCause c)⟩ := by
  have hf : (Options.ofSettings settings).fault = some c := by
    rw [Options.ofSettings_fault, h]
  simp only [reduce, runWith, hf]

theorem reduce_kind_of_valid (hvalid : ∀ s ∈ settings, s.fault = none) {e : Failure Float}
    (h : (reduce lattice settings).result = .error e) : e.kind ≠ .optionViolation := by
  rw [reduce_result] at h
  exact runWith_kind_of_valid (Options.ofSettings_fault_eq_none_iff.mpr hvalid)
    (Options.deltaValid_ofSettings settings) Binary64.slackValid_checkSlack h

/-- A reduction fails on its options exactly when one of its settings is out of its range. -/
theorem reduce_optionViolation_iff (lattice : Mat3 Float) (settings : List (Setting Float)) :
    (∃ e, (reduce lattice settings).result = .error e ∧ e.kind = .optionViolation) ↔
      ∃ s ∈ settings, s.fault.isSome := by
  constructor
  · rintro ⟨e, he, hk⟩
    by_contra hnone
    refine reduce_kind_of_valid (fun s hs => ?_) he hk
    simpa using fun h => hnone ⟨s, hs, h⟩
  · rintro ⟨s, hs, hsome⟩
    have hne : lastGiven Setting.fault settings ≠ none := fun hn => by
      rw [lastGiven_eq_none_iff] at hn
      simp [hn s hs] at hsome
    obtain ⟨c, hc⟩ := Option.ne_none_iff_exists'.mp hne
    have hk := Options.ofSettings_fault_kind (by rw [Options.ofSettings_fault, hc])
    exact ⟨_, by rw [reduce_of_lastGiven_fault hc], by simpa using hk⟩

end Reduce

end CrystalLattice.Reduction

namespace CrystalLattice

open Reduction

theorem Structure.new_eq_ok {α : Type} [Scalar α] {lattice : Mat3 α} {coords : Array (Vec3 α)}
    {species : Array Int} {settings : List (Setting α)} {s : Structure α}
    (h : Structure.new lattice coords species settings = .ok s) :
    ∃ hsize, s = ⟨lattice, coords, species, hsize, settings, none⟩ := by
  simp only [Structure.new] at h
  split at h
  · obtain ⟨-, -, h⟩ := bind_eq_ok h
    obtain ⟨-, -, h⟩ := bind_eq_ok h
    cases h
    exact ⟨_, rfl⟩
  · cases h

namespace Document

variable {doc : Document} {extra : List (Setting Float)} {s : Structure Float}

/-- The settings of a document's structure are its own `delta`, if it has one, and then the
caller's. -/
theorem settings_eq (doc : Document) (extra : List (Setting Float)) :
    doc.settings extra = (doc.delta.map Setting.delta).toList ++ extra := by
  unfold Document.settings
  cases doc.delta <;> rfl

theorem build_eq_ok (h : doc.build extra = .ok s) :
    s.settings = doc.settings extra ∧ s.cache = none := by
  unfold Document.build at h
  obtain ⟨lattice, -, h⟩ := bind_eq_ok h
  obtain ⟨coords, -, h⟩ := bind_eq_ok h
  obtain ⟨-, rfl⟩ := Structure.new_eq_ok h
  exact ⟨rfl, rfl⟩

theorem delta_of_lastGiven (hvalid : ∀ x ∈ doc.settings extra, x.fault = none) {d : Float}
    (hd : lastGiven Setting.delta? extra = some d) :
    (Options.ofSettings (doc.settings extra)).delta = d := by
  have hlast : lastGiven Setting.delta? (doc.settings extra) = some d := by
    rw [settings_eq]
    cases doc.delta with
    | none => exact hd
    | some d₀ => simp [lastGiven_cons, hd]
  rw [Options.ofSettings_eq hvalid, hlast]
  rfl

/-- A document whose own `delta` is out of its range gives a structure whose cell fails on its
options, whatever settings the caller adds. -/
theorem cell_of_delta_fault {d : Float} (hd : doc.delta = some d)
    (hbad : (Setting.delta d).fault.isSome) (h : doc.build extra = .ok s) :
    ∃ e, s.cell.1 = .error e ∧ e.kind = .optionViolation := by
  obtain ⟨hset, hcache⟩ := build_eq_ok h
  have hmem : Setting.delta d ∈ s.settings := by
    simp [hset, settings_eq, hd]
  obtain ⟨e, he, hk⟩ := (reduce_optionViolation_iff s.lattice s.settings).mpr ⟨_, hmem, hbad⟩
  refine ⟨.within .newCell e, ?_, by simpa using hk⟩
  rw [Structure.cell_eq (.inl hcache)]
  simp only [Cell.new, he]
  rfl

end Document

/-- A binary64 reduction fails on its options, before anything else, exactly when a setting is
out of range, with the last such fault; otherwise the last setting of each kind wins. A
document's `delta` is the first setting of its structure. -/
theorem reduce_settings_last_wins :
    (∀ (lattice : Mat3 Float) (settings : List (Setting Float)),
      ((∃ e, (reduce lattice settings).result = .error e ∧ e.kind = .optionViolation) ↔
          ∃ s ∈ settings, s.fault.isSome) ∧
        (∀ c, lastGiven Setting.fault settings = some c →
          reduce lattice settings =
            ⟨if (Options.ofSettings settings).trace then some #[] else none,
              .error (.ofCause c)⟩) ∧
        ((∀ s ∈ settings, s.fault = none) →
          Options.ofSettings settings =
            ⟨(lastGiven Setting.delta? settings).getD defaultDelta,
              (lastGiven Setting.maxSteps? settings).getD defaultMaxSteps,
              (lastGiven Setting.tolerance? settings).getD defaultTolerance,
              (lastGiven Setting.trace? settings).getD false, none⟩)) ∧
    ∀ (doc : Document) (extra : List (Setting Float)) (s : Structure Float),
      doc.build extra = .ok s →
        s.settings = (doc.delta.map Setting.delta).toList ++ extra ∧
        ((∀ x ∈ s.settings, x.fault = none) → ∀ d, lastGiven Setting.delta? extra = some d →
          (Options.ofSettings s.settings).delta = d) ∧
        ∀ d, doc.delta = some d → (Setting.delta d).fault.isSome →
          ∃ e, s.cell.1 = .error e ∧ e.kind = .optionViolation := by
  refine ⟨fun lattice settings => ⟨reduce_optionViolation_iff lattice settings,
    fun c hc => reduce_of_lastGiven_fault hc lattice, Options.ofSettings_eq⟩,
    fun doc extra s h => ?_⟩
  obtain ⟨hset, -⟩ := Document.build_eq_ok h
  refine ⟨hset.trans (Document.settings_eq doc extra), fun hvalid d hd => ?_,
    fun d hd hbad => Document.cell_of_delta_fault hd hbad h⟩
  rw [hset] at hvalid ⊢
  exact Document.delta_of_lastGiven hvalid hd

/-- A budget of zero after a tolerance of two is the fault reported; in range the later `delta`
wins; a document's `delta: 1.5` fails its cell whatever the caller gives. -/
theorem invalidDocumentDelta_settings_last_wins :
    let doc : Document := ⟨some [[1, 0, 0], [0, 1, 0], [0, 0, 1]], some 1.5, []⟩
    let s : Structure Float := ⟨Mat3.identity, #[], #[], rfl, [.delta 1.5, .delta 0.5], none⟩
    reduce Mat3.identity [.delta 0.5, .tolerance 2, .trace, .maxSteps 0] =
        ⟨some #[], .error (.ofCause (.badMaxSteps 0))⟩ ∧
      Options.ofSettings [.delta 0.5, .trace, .maxSteps 7, .delta 0.6] =
        ⟨0.6, 7, defaultTolerance, true, none⟩ ∧
      doc.build [.delta 0.5] = .ok s ∧
      ∃ e, s.cell.1 = .error e ∧ e.kind = .optionViolation := by
  intro doc s
  obtain ⟨hrun, hdoc⟩ := reduce_settings_last_wins
  have hbuild : doc.build [.delta 0.5] = .ok s := by with_unfolding_all rfl
  have hfault : lastGiven Setting.fault
      [.delta (0.5 : Float), .tolerance 2, .trace, .maxSteps 0] = some (.badMaxSteps 0) := by rfl
  have hvalid : ∀ x ∈ ([.delta 0.5, .trace, .maxSteps 7, .delta 0.6] : List (Setting Float)),
      x.fault = none := by
    simp only [List.mem_cons, List.not_mem_nil, or_false]
    rintro x (rfl | rfl | rfl | rfl) <;> rfl
  have hbad : (Setting.delta (1.5 : Float)).fault.isSome := by decide
  exact ⟨((hrun _ _).2.1 _ hfault).trans rfl, ((hrun Mat3.identity _).2.2 hvalid).trans rfl, hbuild,
    (hdoc doc _ s hbuild).2.2 _ rfl hbad⟩

end CrystalLattice
