import CrystalLattice.Proofs.StructureCache
import CrystalLattice.Proofs.FixedPoints

/-!
# Neighbour lists

The neighbours of a site are a scan in index order followed by a stable sort by distance. A
distance within the cutoff is a number, ordered by its key, so the list is sorted by distance and
ties keep index order (`neighbors_sorted_within_cutoff`).
-/

namespace CrystalLattice

/-- A stable sort orders a list by its comparison, and among elements that compare equal both
ways it keeps the order that a relation `R` had on the input. -/
theorem pairwise_mergeSort_ties {α : Type} {le : α → α → Bool}
    (trans : ∀ a b c, le a b → le b c → le a c) (total : ∀ a b, le a b || le b a)
    {R : α → α → Prop} {l : List α} (hl : l.Pairwise R) :
    (l.mergeSort le).Pairwise fun a b => le a b ∧ (le b a → R a b) := by
  rw [← List.mergeSort_zipIdx, List.pairwise_map]
  have hsorted := List.pairwise_mergeSort (List.zipIdxLE_trans trans) (List.zipIdxLE_total total)
    l.zipIdx
  have hnodup : (l.zipIdx.mergeSort (List.zipIdxLE le)).Nodup := by
    refine (List.mergeSort_perm _ _).nodup_iff.mpr (List.Nodup.of_map Prod.snd ?_)
    rw [List.zipIdx_map_snd]
    exact List.nodup_range'
  refine (hsorted.and hnodup).imp_of_mem ?_
  rintro ⟨a, i⟩ ⟨b, j⟩ ha hb ⟨hab, hne⟩
  rw [List.mem_mergeSort, List.mk_mem_zipIdx_iff_getElem?] at ha hb
  have hle : le a b = true := by
    by_contra h
    simp [List.zipIdxLE, h] at hab
  refine ⟨hle, fun hba => ?_⟩
  simp only [List.zipIdxLE, hle, hba, if_true, decide_eq_true_eq] at hab
  have hij : i ≠ j := by
    rintro rfl
    rw [ha, Option.some_inj] at hb
    exact hne (by rw [hb])
  obtain ⟨hi, rfl⟩ := List.getElem?_eq_some_iff.mp ha
  obtain ⟨hj, rfl⟩ := List.getElem?_eq_some_iff.mp hb
  exact List.pairwise_iff_getElem.mp hl i j hi hj (by omega)

/-- Sorted by a key, a list comes in the order of the keys, and among equal keys in the order
that a relation `R` had on the input. -/
theorem pairwise_mergeSort_key {α β : Type} [LinearOrder β] (key : α → β) {R : α → α → Prop}
    {l : List α} (hl : l.Pairwise R) :
    (l.mergeSort fun a b => key a ≤ key b).Pairwise fun a b =>
      key a ≤ key b ∧ (key b ≤ key a → R a b) := by
  have htrans : ∀ a b c : α, decide (key a ≤ key b) → decide (key b ≤ key c) →
      decide (key a ≤ key c) := by
    simp only [decide_eq_true_eq]
    exact fun a b c => le_trans
  have htotal : ∀ a b : α, (decide (key a ≤ key b) || decide (key b ≤ key a)) = true := by
    simp only [Bool.or_eq_true, decide_eq_true_eq]
    exact fun a b => le_total _ _
  simpa using pairwise_mergeSort_ties htrans htotal hl

namespace Structure

open Binary64 Reduction

/-- The sites other than `i` whose nearest image from `centre` lies within `cutoff`, in index
order: the scan that `neighbors` sorts. -/
def nearSites (s : Structure Float) (c : Cell Float) (centre : Vec3 Float) (i : ℕ)
    (cutoff : Float) : List Neighbor :=
  (List.range s.coords.size).zip (s.coords.toList.zip s.species.toList) |>.filterMap
    fun (j, p, sp) =>
      if j = i then none
      else
        let d := c.minimumImage centre p
        if d.distance ≤ cutoff then some ⟨j, sp, d⟩ else none

@[simp] theorem cell_snd_coords (s : Structure Float) : s.cell.2.coords = s.coords := by
  unfold cell
  split <;> rfl

@[simp] theorem cell_snd_species (s : Structure Float) : s.cell.2.species = s.species := by
  unfold cell
  split <;> rfl

theorem neighbors_eq_ok {s : Structure Float} {i : ℕ} {cutoff : Float} {c : Cell Float}
    (hi : i < s.coords.size) (hcut : cutoffValid cutoff = true) (hcell : s.cell.1 = .ok c) :
    s.neighbors i cutoff = (.ok ((nearSites s c s.coords[i] i cutoff).mergeSort
      fun a b => a.displacement.distance ≤ b.displacement.distance), s.cell.2) := by
  have hsite : s.site? i = .ok s.coords[i] := by
    simp [site?, hi]
  have hcoords := cell_snd_coords s
  have hspecies := cell_snd_species s
  rcases hc : s.cell with ⟨r, s'⟩
  rw [hc] at hcell hcoords hspecies
  simp only at hcell hcoords hspecies
  subst hcell
  simp [neighbors, hsite, hcut, nearSites, hc, hcoords, hspecies]

section Scan

variable {s : Structure Float} {c : Cell Float} {centre : Vec3 Float} {i : ℕ} {cutoff : Float}

theorem mem_nearSites {nb : Neighbor} :
    nb ∈ nearSites s c centre i cutoff ↔
      ∃ j, ∃ (hj : j < s.coords.size) (hj' : j < s.species.size), j ≠ i ∧
        (c.minimumImage centre s.coords[j]).distance ≤ cutoff ∧
        nb = ⟨j, s.species[j], c.minimumImage centre s.coords[j]⟩ := by
  have hzip : ∀ x, x ∈ (List.range s.coords.size).zip (s.coords.toList.zip s.species.toList) ↔
      ∃ j, ∃ (hj : j < s.coords.size) (hj' : j < s.species.size),
        x = (j, s.coords[j], s.species[j]) := by
    intro x
    simp only [List.mem_iff_getElem, List.length_zip, List.getElem_zip, List.getElem_range,
      Array.getElem_toList, Array.length_toList, List.length_range]
    constructor
    · rintro ⟨j, hj, rfl⟩
      exact ⟨j, by omega, by omega, rfl⟩
    · rintro ⟨j, hj, hj', rfl⟩
      exact ⟨j, by omega, rfl⟩
  rw [nearSites, List.mem_filterMap]
  simp only [hzip]
  constructor
  · rintro ⟨_, ⟨j, hj, hj', rfl⟩, h⟩
    simp only at h
    split_ifs at h with hji hd
    cases h
    exact ⟨j, hj, hj', hji, hd, rfl⟩
  · rintro ⟨j, hj, hj', hji, hd, rfl⟩
    exact ⟨_, ⟨j, hj, hj', rfl⟩, by simp [hji, hd]⟩

theorem distance_le_of_mem_nearSites {nb : Neighbor} (h : nb ∈ nearSites s c centre i cutoff) :
    nb.displacement.distance ≤ cutoff := by
  obtain ⟨j, hj, hj', -, hd, rfl⟩ := mem_nearSites.mp h
  exact hd

theorem nearSites_pairwise_index :
    (nearSites s c centre i cutoff).Pairwise fun a b => a.index < b.index := by
  rw [nearSites, List.pairwise_filterMap]
  have hscan : ((List.range s.coords.size).zip (s.coords.toList.zip s.species.toList)).Pairwise
      fun x y => x.1 < y.1 := by
    rw [List.pairwise_iff_getElem]
    intro k k' hk hk' hkk'
    simpa [List.getElem_zip, List.getElem_range] using hkk'
  refine hscan.imp fun {x y} hxy b hb b' hb' => ?_
  obtain ⟨j, p, sp⟩ := x
  obtain ⟨j', p', sp'⟩ := y
  simp only at hb hb'
  split_ifs at hb hb'
  cases hb
  cases hb'
  exact hxy

theorem mergeSort_nearSites_eq :
    (nearSites s c centre i cutoff).mergeSort
        (fun a b => a.displacement.distance ≤ b.displacement.distance) =
      (nearSites s c centre i cutoff).mergeSort fun a b =>
        sortKey a.displacement.distance.toModel.unpack ≤
          sortKey b.displacement.distance.toModel.unpack := by
  have hagree : ∀ a ∈ nearSites s c centre i cutoff, ∀ b ∈ nearSites s c centre i cutoff,
      decide (a.displacement.distance ≤ b.displacement.distance) =
        decide (sortKey a.displacement.distance.toModel.unpack ≤
          sortKey b.displacement.distance.toModel.unpack) := by
    intro a ha b hb
    exact decide_eq_decide.mpr (le_iff_sortKey_le
      (ne_notANumber_of_le (distance_le_of_mem_nearSites ha)).1
      (ne_notANumber_of_le (distance_le_of_mem_nearSites hb)).1)
  simpa using List.map_mergeSort (f := id) hagree

end Scan

/-- The neighbours of site `i` within a cutoff are exactly the other sites whose nearest image
lies within it, each once, with its species and its minimum-image displacement; they come
nearest first and, at equal distance, in index order. -/
theorem neighbors_sorted_within_cutoff {s : Structure Float} {i : ℕ} {cutoff : Float}
    {c : Cell Float} (hi : i < s.coords.size) (hcut : cutoffValid cutoff = true)
    (hcell : s.cell.1 = .ok c) :
    ∃ out, s.neighbors i cutoff = (.ok out, s.cell.2) ∧
      (∀ nb, nb ∈ out ↔ ∃ j, ∃ (hj : j < s.coords.size) (hj' : j < s.species.size), j ≠ i ∧
        (c.minimumImage s.coords[i] s.coords[j]).distance ≤ cutoff ∧
        nb = ⟨j, s.species[j], c.minimumImage s.coords[i] s.coords[j]⟩) ∧
      (out.map Neighbor.index).Nodup ∧
      out.Pairwise fun a b => a.displacement.distance ≤ b.displacement.distance ∧
        (b.displacement.distance ≤ a.displacement.distance → a.index < b.index) := by
  refine ⟨_, neighbors_eq_ok hi hcut hcell, fun nb => ?_, ?_, ?_⟩
  · rw [List.mem_mergeSort, mem_nearSites]
  · refine ((List.mergeSort_perm _ _).map Neighbor.index).nodup_iff.mpr ?_
    exact List.pairwise_map.mpr (nearSites_pairwise_index.imp Nat.ne_of_lt)
  · rw [mergeSort_nearSites_eq]
    refine (pairwise_mergeSort_key _ nearSites_pairwise_index).imp_of_mem
      fun {a b} ha hb ⟨hab, hba⟩ => ?_
    rw [List.mem_mergeSort] at ha hb
    have hnum : ∀ nb ∈ nearSites s c s.coords[i] i cutoff,
        nb.displacement.distance.toModel.unpack ≠ .notANumber :=
      fun nb h => (ne_notANumber_of_le (distance_le_of_mem_nearSites h)).1
    rw [le_iff_sortKey_le (hnum a ha) (hnum b hb), le_iff_sortKey_le (hnum b hb) (hnum a ha)]
    exact ⟨hab, hba⟩

set_option maxRecDepth 8000 in
theorem unitCube_cell_new :
    (Cell.new (Mat3.identity : Mat3 Float) []).2 =
      .ok ⟨Mat3.identity, ⟨Mat3.identity, Mat3.identity, Mat3.identity, 2, 0⟩⟩ := by
  have hg : GramSchmidt.compute (Mat3.identity : Mat3 Float) defaultTolerance =
      .ok ⟨Mat3.identity, ⟨1, 1, 1⟩, Mat3.zero⟩ := by
    rw [GramSchmidt.compute_eq_refresh]
    decide
  have hcheck : checkReduced (Mat3.identity : Mat3 Float) (Options.ofSettings []).delta
      checkSlack (Options.ofSettings []).tolerance = .ok () := by
    rw [checkReduced, GramSchmidt.compute_eq_refresh]
    decide
  have hrun := runWith_of_passesLoopTests (o := Options.ofSettings ([] : List (Setting Float)))
    rfl (by decide) (by decide) hg ⟨by decide, by decide⟩ identity_round identity_inverse hcheck
  simp only [Cell.new, reduce, hrun]
  rfl

/-- Three sites of the unit cube, the neighbours of the first within distance one. -/
theorem unitCube_neighbors_sorted_within_cutoff :
    let s : Structure Float :=
      ⟨Mat3.identity, #[⟨0, 0, 0⟩, ⟨0.5, 0, 0⟩, ⟨0, 0.25, 0⟩], #[1, 2, 3], rfl, [], none⟩
    let c : Cell Float := ⟨Mat3.identity, ⟨Mat3.identity, Mat3.identity, Mat3.identity, 2, 0⟩⟩
    0 < s.coords.size ∧ cutoffValid 1 = true ∧ s.cell.1 = .ok c ∧
      ∃ out, s.neighbors (0 : ℕ) 1 = (.ok out, s.cell.2) ∧
        (∀ nb, nb ∈ out ↔ ∃ j, ∃ (hj : j < s.coords.size) (hj' : j < s.species.size), j ≠ 0 ∧
          (c.minimumImage s.coords[0] s.coords[j]).distance ≤ 1 ∧
          nb = ⟨j, s.species[j], c.minimumImage s.coords[0] s.coords[j]⟩) ∧
        (out.map Neighbor.index).Nodup ∧
        out.Pairwise fun a b => a.displacement.distance ≤ b.displacement.distance ∧
          (b.displacement.distance ≤ a.displacement.distance → a.index < b.index) := by
  intro s c
  have hi : 0 < s.coords.size := by decide
  have hcut : cutoffValid 1 = true := by decide
  have hcell : s.cell.1 = .ok c := unitCube_cell_new
  exact ⟨hi, hcut, hcell, neighbors_sorted_within_cutoff hi hcut hcell⟩

end Structure

end CrystalLattice
