import CrystalLattice.Crystal.Structure
import CrystalLattice.Proofs.Exact

/-!
# The cell as a cache

Over any sequence of queries the cache of a structure is empty or holds the reduction of its
lattice, so the reduction runs at most once, every answer is the one an empty cache gives, and
bad indices and cutoffs are refused before the cell is needed (`queries_reduce_at_most_once`).
-/

namespace CrystalLattice.Structure

inductive Query where
  | displacement (f₁ f₂ : Vec3 Float)
  | siteDisplacement (i j : Int)
  | neighbors (i : Int) (cutoff : Float)
  | cell
  | size
  | lattice
  | coords
  | species
  | volume

inductive Answer where
  | displacement (r : Except (Failure Float) (Displacement Float))
  | neighbors (r : Except (Failure Float) (List Neighbor))
  | cell (r : Except (Failure Float) (Cell Float))
  | size (n : Nat)
  | lattice (m : Mat3 Float)
  | coords (c : Array (Vec3 Float))
  | species (s : Array Int)
  | volume (v : Float)

def Answer.failure? : Answer → Option (Failure Float)
  | .displacement (.error e) | .neighbors (.error e) | .cell (.error e) => some e
  | _ => none

/-- Answer one query; also the structure after it. -/
def ask (s : Structure Float) : Query → Answer × Structure Float
  | .displacement f₁ f₂ => let (r, s) := s.displacement f₁ f₂; (.displacement r, s)
  | .siteDisplacement i j => let (r, s) := s.siteDisplacement i j; (.displacement r, s)
  | .neighbors i c => let (r, s) := s.neighbors i c; (.neighbors r, s)
  | .cell => let (r, s) := s.cell; (.cell r, s)
  | .size => (.size s.size, s)
  | .lattice => (.lattice s.lattice, s)
  | .coords => (.coords s.coords, s)
  | .species => (.species s.species, s)
  | .volume => (.volume s.volume, s)

/-- Answer queries in order: the answers, and the structure after each query. -/
def askAll (s : Structure Float) : List Query → List Answer × List (Structure Float)
  | [] => ([], [])
  | q :: qs =>
    let (a, s') := s.ask q
    let (as, ss) := s'.askAll qs
    (a :: as, s' :: ss)

def IsSite {α : Type} (s : Structure α) (i : Int) : Prop := 0 ≤ i ∧ i < s.size

/-- The queries that need the cell: distances between points, the cell itself, and distances
and neighbours once their indices and cutoff have passed their checks. -/
def NeedsCell (s : Structure Float) : Query → Prop
  | .displacement .. | .cell => True
  | .siteDisplacement i j => s.IsSite i ∧ s.IsSite j
  | .neighbors i c => s.IsSite i ∧ cutoffValid c = true
  | _ => False

section Cache

variable {α : Type} [Scalar α] {s : Structure α}

/-- The cache is empty or holds the reduction of the lattice under the settings. -/
def CacheValid (s : Structure α) : Prop :=
  s.cache = none ∨ s.cache = some (Cell.new s.lattice s.settings)

def filled (s : Structure α) : Structure α := { s with cache := some (Cell.new s.lattice s.settings) }

def reset (s : Structure α) : Structure α := { s with cache := none }

@[simp] theorem filled_lattice : s.filled.lattice = s.lattice := rfl
@[simp] theorem filled_coords : s.filled.coords = s.coords := rfl
@[simp] theorem filled_species : s.filled.species = s.species := rfl
@[simp] theorem filled_settings : s.filled.settings = s.settings := rfl
@[simp] theorem filled_size : s.filled.size = s.size := rfl
@[simp] theorem filled_cache : s.filled.cache = some (Cell.new s.lattice s.settings) := rfl
@[simp] theorem reset_filled : s.filled.reset = s.reset := rfl

theorem cacheValid_filled (s : Structure α) : s.filled.CacheValid := .inr rfl

theorem cacheValid_reset (s : Structure α) : s.reset.CacheValid := .inl rfl

theorem filled_filled : s.filled.filled = s.filled := rfl

/-- With a valid cache, asking for the cell gives the reduction and leaves the cell computed. -/
theorem cell_eq (h : s.CacheValid) : s.cell = ((Cell.new s.lattice s.settings).2, s.filled) := by
  rcases h with h | h
  · simp [cell, h, filled]
  · obtain ⟨lattice, coords, species, hsize, settings, cache⟩ := s
    simp only at h
    subst h
    rfl

theorem site?_filled (i : Int) : s.filled.site? i = s.site? i := rfl

end Cache

section Sites

variable {α : Type} {s : Structure α} {i : Int}

@[simp] theorem reset_cache : s.reset.cache = none := rfl

theorem site?_reset : s.reset.site? i = s.site? i := rfl

theorem site?_of_not_isSite (h : ¬s.IsSite i) :
    s.site? i = .error (.ofCause (.siteIndex i s.size)) := by
  simp only [site?, IsSite, size] at h ⊢
  rw [dif_neg h]

theorem site?_of_isSite (h : s.IsSite i) : ∃ v, s.site? i = .ok v := by
  simp only [site?, IsSite, size] at h ⊢
  rw [dif_pos h]
  exact ⟨_, rfl⟩

end Sites

section Queries

variable {s : Structure Float}

theorem ask_snd (h : s.CacheValid) (q : Query) : (s.ask q).2 = s ∨ (s.ask q).2 = s.filled := by
  cases q with
  | displacement f₁ f₂ => simp [ask, displacement, cell_eq h]
  | siteDisplacement i j =>
    simp only [ask, siteDisplacement]
    split <;> simp [displacement, cell_eq h]
  | neighbors i c =>
    simp only [ask, neighbors]
    split
    · simp
    · split
      · simp
      · simp only [cell_eq h]
        split <;> simp
  | cell => simp [ask, cell_eq h]
  | size | lattice | coords | species | volume => simp [ask]

/-- With a valid cache, a query is answered as on the same structure with an empty cache: the
two give the same cell, and read the same data. -/
theorem ask_fst (h : s.CacheValid) (q : Query) : (s.ask q).1 = (s.reset.ask q).1 := by
  have hcell : s.reset.cell = s.cell := by
    rw [cell_eq h, cell_eq (cacheValid_reset s)]
    rfl
  cases q <;> simp only [ask, displacement, siteDisplacement, neighbors, hcell, site?_reset] <;>
    (repeat' split) <;> rfl

/-- A query needs no cell when its site index is bad: the refusal names the index and leaves
the structure as it was. -/
theorem siteDisplacement_of_not_isSite_left {i : Int} (hi : ¬s.IsSite i) (j : Int) :
    s.siteDisplacement i j = (.error (.ofCause (.siteIndex i s.size)), s) := by
  simp [siteDisplacement, site?_of_not_isSite hi]

theorem siteDisplacement_of_not_isSite_right {i j : Int} (hi : s.IsSite i) (hj : ¬s.IsSite j) :
    s.siteDisplacement i j = (.error (.ofCause (.siteIndex j s.size)), s) := by
  obtain ⟨v, hv⟩ := site?_of_isSite hi
  simp [siteDisplacement, hv, site?_of_not_isSite hj]

theorem neighbors_of_not_isSite {i : Int} (hi : ¬s.IsSite i) (c : Float) :
    s.neighbors i c = (.error (.ofCause (.siteIndex i s.size)), s) := by
  simp [neighbors, site?_of_not_isSite hi]

theorem neighbors_of_cutoffValid_eq_false {i : Int} {c : Float} (hi : s.IsSite i)
    (hc : cutoffValid c = false) : s.neighbors i c = (.error (.ofCause (.badCutoff c)), s) := by
  obtain ⟨v, hv⟩ := site?_of_isSite hi
  simp [neighbors, hv, hc]

/-- With a valid cache, a failed reduction is the answer to every query that needs the cell. -/
theorem ask_failure?_of_needsCell (h : s.CacheValid) {e : Failure Float}
    (he : (Cell.new s.lattice s.settings).2 = .error e) {q : Query} (hq : s.NeedsCell q) :
    (s.ask q).1.failure? = some e := by
  cases q with
  | displacement f₁ f₂ => simp [ask, displacement, cell_eq h, he, Except.map, Answer.failure?]
  | siteDisplacement i j =>
    obtain ⟨a, ha⟩ := site?_of_isSite hq.1
    obtain ⟨b, hb⟩ := site?_of_isSite hq.2
    simp [ask, siteDisplacement, displacement, ha, hb, cell_eq h, he, Except.map,
      Answer.failure?]
  | neighbors i c =>
    obtain ⟨a, ha⟩ := site?_of_isSite hq.1
    simp [ask, neighbors, ha, hq.2, cell_eq h, he, Answer.failure?]
  | cell => simp [ask, cell_eq h, he, Answer.failure?]
  | size | lattice | coords | species | volume => exact absurd hq id

theorem ask_keeps (h : s.CacheValid) (q : Query) :
    (s.ask q).2.CacheValid ∧ (s.ask q).2.lattice = s.lattice ∧
      (s.ask q).2.settings = s.settings ∧ (s.ask q).2.coords = s.coords ∧
      (s.ask q).2.reset = s.reset ∧ (s.cache ≠ none → (s.ask q).2.cache = s.cache) := by
  rcases ask_snd h q with hs | hs <;> rw [hs]
  · exact ⟨h, rfl, rfl, rfl, rfl, fun _ => rfl⟩
  · refine ⟨cacheValid_filled s, rfl, rfl, rfl, rfl, fun hne => ?_⟩
    rcases h with h | h
    · exact absurd h hne
    · exact h.symm

end Queries

section Runs

variable {s : Structure Float}

/-- Along any sequence of queries from a valid cache, every answer is the one the structure gives
with an empty cache. -/
theorem askAll_answers (h : s.CacheValid) (qs : List Query) :
    (s.askAll qs).1 = qs.map fun q => (s.reset.ask q).1 := by
  induction qs generalizing s with
  | nil => rfl
  | cons q qs ih =>
    obtain ⟨hvalid, -, -, -, hreset, -⟩ := ask_keeps h q
    simp only [askAll, List.map_cons, ask_fst h q, ih hvalid, hreset]

/-- Along any sequence of queries from a valid cache, the caches after the queries are first
empty and then, once filled, all the reduction; and none is empty once the first cache was not. -/
theorem askAll_caches (h : s.CacheValid) (qs : List Query) :
    ∃ a b, (s.askAll qs).2.map Structure.cache =
      List.replicate a none ++ List.replicate b (some (Cell.new s.lattice s.settings)) ∧
      (s.cache ≠ none → a = 0) := by
  induction qs generalizing s with
  | nil => exact ⟨0, 0, rfl, fun _ => rfl⟩
  | cons q qs ih =>
    obtain ⟨hvalid, hlattice, hsettings, -, -, hkeep⟩ := ask_keeps h q
    obtain ⟨a, b, hcaches, hfirst⟩ := ih hvalid
    rw [hlattice, hsettings] at hcaches
    simp only [askAll, List.map_cons, hcaches]
    rcases hvalid with hnone | hsome
    · -- the query left the cache empty, so it was empty before
      refine ⟨a + 1, b, by rw [hnone]; rfl, fun hne => absurd (hkeep hne ▸ hnone) hne⟩
    · -- the query left the cache filled, and it stays so
      rw [hlattice, hsettings] at hsome
      obtain rfl := hfirst (by rw [hsome]; exact Option.some_ne_none _)
      exact ⟨0, b + 1, by rw [hsome]; rfl, fun _ => rfl⟩

end Runs

/-- The refusals of a structure: a distance between sites refuses a bad first index, and only
then a bad second one; a neighbour list refuses a bad index, and only then a cutoff that is not
positive and finite; each refusal names what it refuses and leaves the structure as it was. -/
def RefusesBadQueries (s : Structure Float) : Prop :=
  ∀ (i j : Int) (c : Float),
    (¬s.IsSite i → s.siteDisplacement i j = (.error (.ofCause (.siteIndex i s.size)), s) ∧
      s.neighbors i c = (.error (.ofCause (.siteIndex i s.size)), s)) ∧
    (s.IsSite i → ¬s.IsSite j →
      s.siteDisplacement i j = (.error (.ofCause (.siteIndex j s.size)), s)) ∧
    (s.IsSite i → cutoffValid c = false →
      s.neighbors i c = (.error (.ofCause (.badCutoff c)), s))

theorem refusesBadQueries (s : Structure Float) : s.RefusesBadQueries := fun _ j c =>
  ⟨fun hi => ⟨siteDisplacement_of_not_isSite_left hi j, neighbors_of_not_isSite hi c⟩,
    siteDisplacement_of_not_isSite_right, neighbors_of_cutoffValid_eq_false⟩

/-- Along any queries from an empty cache, the reduction runs at most once, each answer is the one
an empty cache gives, and bad indices and cutoffs are refused without computing the cell. -/
theorem queries_reduce_at_most_once (s : Structure Float) (hs : s.cache = none)
    (qs : List Query) :
    (∃ a b, (s.askAll qs).2.map Structure.cache =
      List.replicate a none ++ List.replicate b (some (Cell.new s.lattice s.settings))) ∧
    (s.askAll qs).1 = qs.map (fun q => (s.ask q).1) ∧
    (∀ e, (Cell.new s.lattice s.settings).2 = .error e →
      ∀ q, s.NeedsCell q → (s.ask q).1.failure? = some e) ∧
    ∀ t ∈ s :: (s.askAll qs).2, t.RefusesBadQueries := by
  have hvalid : s.CacheValid := .inl hs
  have hreset : s.reset = s := by
    obtain ⟨lattice, coords, species, hsize, settings, cache⟩ := s
    simp only at hs
    rw [hs]
    rfl
  obtain ⟨a, b, hcaches, -⟩ := askAll_caches hvalid qs
  refine ⟨⟨a, b, hcaches⟩, ?_, fun e he q hq => ask_failure?_of_needsCell hvalid he hq,
    fun t _ => refusesBadQueries t⟩
  rw [askAll_answers hvalid, hreset]

/-- A structure of one site, asked for its cell and then for the distance from its site to a
site it does not have. -/
theorem oneSite_queries_reduce_at_most_once :
    let s : Structure Float := ⟨Mat3.identity, #[Vec3.zero], #[1], rfl, [], none⟩
    let qs : List Query := [.cell, .siteDisplacement 0 1, .cell]
    s.cache = none ∧
      ((∃ a b, (s.askAll qs).2.map Structure.cache =
        List.replicate a none ++ List.replicate b (some (Cell.new s.lattice s.settings))) ∧
      (s.askAll qs).1 = qs.map (fun q => (s.ask q).1) ∧
      (∀ e, (Cell.new s.lattice s.settings).2 = .error e →
        ∀ q, s.NeedsCell q → (s.ask q).1.failure? = some e) ∧
      ∀ t ∈ s :: (s.askAll qs).2, t.RefusesBadQueries) :=
  ⟨rfl, queries_reduce_at_most_once _ rfl _⟩

end CrystalLattice.Structure
