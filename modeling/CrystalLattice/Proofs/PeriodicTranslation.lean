import CrystalLattice.Proofs.MinimumImage
import CrystalLattice.Proofs.StructureCache
import CrystalLattice.Proofs.Binary64Scaling

/-!
# Periodic copies

Over the rationals the search reads its points only through their wrapped coordinates in the
reduced frame, which an integer shift does not change (`minimumImage_translation_invariant`);
two sites that are periodic copies are at distance zero.
-/

namespace CrystalLattice

open Mat3 Vec3 Reduction

section Wrap

theorem wrap_add_of_isIntegral (x : Vec3 ℚ) {k : Vec3 ℚ} (hk : k.IsIntegral) :
    wrap (x.add k) = wrap x := by
  obtain ⟨a, ha⟩ := hk 0
  obtain ⟨b, hb⟩ := hk 1
  obtain ⟨c, hc⟩ := hk 2
  rw [wrap_rat, wrap_rat]
  ext <;> simp_all [Vec3.map, Int.fract_add_intCast]

/-- An integral inverse takes an integer shift of a point to an integer shift of its
coordinates in the reduced frame, which wrapping removes. -/
theorem wrap_mulMat_add {inverse : Mat3 ℚ} (hI : inverse.IsIntegral) (f : Vec3 ℚ) {k : Vec3 ℚ}
    (hk : k.IsIntegral) : wrap ((f.add k).mulMat inverse) = wrap (f.mulMat inverse) := by
  rw [add_mulMat, wrap_add_of_isIntegral _ (hk.mulMat hI)]

end Wrap

section Search

variable {α : Type} [Scalar α]

theorem keepShorter_eq_or (reduced : Mat3 α) (pre : Vec3 α) (best : Displacement α) (o : Offset) :
    keepShorter reduced pre best o =
        ⟨pre.add ((o.toVec : Vec3 α).mulMat reduced), o,
          some (pre.add ((o.toVec : Vec3 α).mulMat reduced)).normSq⟩ ∨
      keepShorter reduced pre best o = best := by
  unfold keepShorter
  dsimp only
  split_ifs
  · exact .inl rfl
  · exact .inr rfl

theorem foldl_keepShorter_cases (reduced : Mat3 α) (pre : Vec3 α) (l : List Offset) :
    ∀ best, l.foldl (keepShorter reduced pre) best = best ∨
      ∃ o ∈ l, l.foldl (keepShorter reduced pre) best =
        ⟨pre.add ((o.toVec : Vec3 α).mulMat reduced), o,
          some (pre.add ((o.toVec : Vec3 α).mulMat reduced)).normSq⟩ := by
  induction l with
  | nil => exact fun best => .inl rfl
  | cons o l ih =>
    intro best
    rw [List.foldl_cons]
    rcases ih (keepShorter reduced pre best o) with h | ⟨o', ho', h⟩
    · rw [h]
      rcases keepShorter_eq_or reduced pre best o with hk | hk
      · exact .inr ⟨o, List.mem_cons_self, hk⟩
      · exact .inl hk
    · exact .inr ⟨o', List.mem_cons_of_mem _ ho', h⟩

variable {reduced : Mat3 ℚ} {pre : Vec3 ℚ}

theorem foldl_keepShorter_eq_of_lt {l : List Offset} {o : Offset} (ho : o ∈ l)
    (hlt : ∀ o' ∈ l, o' ≠ o →
      (imageCandidate reduced pre o).normSq < (imageCandidate reduced pre o').normSq) :
    l.foldl (keepShorter reduced pre) ⟨Vec3.zero, Offset.zero, none⟩ =
      ⟨imageCandidate reduced pre o, o, some (imageCandidate reduced pre o).normSq⟩ := by
  obtain ⟨b, -, hvec, hlen, hmin⟩ :
      ShortestAmong reduced pre l (l.foldl (keepShorter reduced pre) ⟨Vec3.zero, Offset.zero, none⟩) :=
    foldl_keepShorter_shortest (List.ne_nil_of_mem ho)
  rcases foldl_keepShorter_cases reduced pre l _ with h | ⟨o', ho', h⟩
  · rw [h] at hlen
    cases hlen
  rw [h] at hvec ⊢
  have hlen' : (imageCandidate reduced pre o').normSq = (imageCandidate reduced pre b).normSq := by
    rw [← hvec]
    rfl
  obtain rfl : o' = o := by
    by_contra hne
    have h₁ := hlt o' ho' hne
    have h₂ := hmin o ho
    linarith
  rfl

end Search

section Copies

variable (reduced : Mat3 ℚ) {inverse : Mat3 ℚ}

@[simp] theorem normSq_zero : (Vec3.zero : Vec3 ℚ).normSq = 0 := by
  simp [normSq_def]

theorem minimumImage_add_left (hI : inverse.IsIntegral) (f₁ f₂ : Vec3 ℚ) {k : Vec3 ℚ}
    (hk : k.IsIntegral) :
    minimumImage reduced inverse (f₁.add k) f₂ = minimumImage reduced inverse f₁ f₂ := by
  simp only [minimumImage, wrap_mulMat_add hI f₁ hk]

theorem minimumImage_add_right (hI : inverse.IsIntegral) (f₁ f₂ : Vec3 ℚ) {k : Vec3 ℚ}
    (hk : k.IsIntegral) :
    minimumImage reduced inverse f₁ (f₂.add k) = minimumImage reduced inverse f₁ f₂ := by
  simp only [minimumImage, wrap_mulMat_add hI f₂ hk]

theorem Vec3.eq_zero_of_normSq_mulMat (hdet : reduced.det ≠ 0) {c : Vec3 ℚ}
    (h : (c.mulMat reduced).normSq = 0) : c = Vec3.zero := by
  have hget : ∀ i, c.get i = 0 := by
    intro i
    have hle := coeff_sq_mul_det_sq_le reduced c i
    rw [h, zero_mul] at hle
    have hdet2 : 0 < reduced.det ^ 2 := by positivity
    have hsq : c.get i ^ 2 = 0 := le_antisymm
      (by nlinarith [sq_nonneg (c.get i)]) (sq_nonneg _)
    exact (pow_eq_zero_iff two_ne_zero).mp hsq
  ext
  · exact hget 0
  · exact hget 1
  · exact hget 2

theorem Offset.eq_zero_of_toVec_eq_zero {o : Offset} (h : (o.toVec : Vec3 ℚ) = Vec3.zero) :
    o = Offset.zero := by
  obtain ⟨i, j, k⟩ := o
  rw [Offset.toVec_rat, Vec3.ext_iff] at h
  obtain ⟨hi, hj, hk⟩ := h
  simp only [zero_x, zero_y, zero_z, Int.cast_eq_zero] at hi hj hk
  subst hi hj hk
  rfl

/-- A point and itself: the search is centred at zero, where over a nonsingular basis the zero
offset alone gives a candidate of length zero, so the displacement is zero with the zero
image. -/
theorem minimumImage_self (hdet : reduced.det ≠ 0) (f : Vec3 ℚ) :
    minimumImage reduced inverse f f = ⟨Vec3.zero, Offset.zero, some 0⟩ := by
  have hpre : ((wrap (f.mulMat inverse)).mulMat reduced).sub
      ((wrap (f.mulMat inverse)).mulMat reduced) = Vec3.zero := by
    ext <;> simp
  have hcand : ∀ o : Offset, imageCandidate reduced Vec3.zero o = (o.toVec : Vec3 ℚ).mulMat reduced := by
    intro o
    ext <;> simp [imageCandidate]
  have hzero : imageCandidate reduced Vec3.zero Offset.zero = Vec3.zero := by
    rw [hcand]
    ext <;> simp [Offset.zero, Offset.toVec_rat, mulMat]
  have hlt : ∀ o ∈ Offset.images, o ≠ Offset.zero →
      (imageCandidate reduced Vec3.zero Offset.zero).normSq <
        (imageCandidate reduced Vec3.zero o).normSq := by
    intro o _ hne
    rw [hzero, normSq_zero, hcand]
    exact lt_of_le_of_ne (normSq_nonneg _) fun h0 =>
      hne (Offset.eq_zero_of_toVec_eq_zero (Vec3.eq_zero_of_normSq_mulMat reduced hdet h0.symm))
  simp only [minimumImage, hpre]
  rw [foldl_keepShorter_eq_of_lt (by simp [Offset.images, Offset.zero]) hlt, hzero, normSq_zero]

end Copies

/-- Shifting either point by an integer offset changes neither the displacement, its image nor
its squared length; through a structure's cell a site and its periodic copy are at distance zero. -/
theorem minimumImage_translation_invariant :
    (∀ (reduced inverse : Mat3 ℚ), inverse.IsIntegral → ∀ (f₁ f₂ : Vec3 ℚ) (n₁ n₂ : Offset),
        minimumImage reduced inverse (f₁.add n₁.toVec) (f₂.add n₂.toVec) =
          minimumImage reduced inverse f₁ f₂) ∧
      ∀ (s : Structure ℚ) (c : Cell ℚ) (i j : ℤ) (a : Vec3 ℚ) (n : Offset), s.CacheValid →
        (Cell.new s.lattice s.settings).2 = .ok c → s.site? i = .ok a →
        s.site? j = .ok (a.add n.toVec) →
        (s.siteDisplacement i j).1 = .ok ⟨Vec3.zero, Offset.zero, some 0⟩ := by
  refine ⟨fun reduced inverse hI f₁ f₂ n₁ n₂ => ?_, fun s c i j a n hs hc hi hj => ?_⟩
  · rw [minimumImage_add_left reduced hI _ _ n₁.toVec_isIntegral,
      minimumImage_add_right reduced hI _ _ n₂.toVec_isIntegral]
  · -- the cell is the reduction: its basis is nonsingular and its inverse integral
    have hred := reduce_reducesTo (Cell.new_eq_ok hc).1
    simp only [Structure.siteDisplacement, hi, hj, Structure.displacement, Structure.cell_eq hs, hc,
      Except.map, Cell.minimumImage]
    rw [minimumImage_add_right _ hred.inverse_integral _ _ n.toVec_isIntegral,
      minimumImage_self _ hred.reduced_det_ne_zero]

deriving instance DecidableEq for Cell

/-- The unit cube: two points shifted by integer offsets, and a structure whose second site is
the first moved by `(1, -1, 2)`. -/
theorem unitCube_translation_invariant :
    let s : Structure ℚ := ⟨Mat3.identity, #[⟨1 / 4, 1 / 2, 0⟩, ⟨5 / 4, -1 / 2, 2⟩], #[1, 1], rfl, [], none⟩
    (Mat3.identity : Mat3 ℚ).IsIntegral ∧
      minimumImage (Mat3.identity : Mat3 ℚ) Mat3.identity
          ((⟨1 / 4, 1 / 2, 0⟩ : Vec3 ℚ).add (⟨1, -1, 0⟩ : Offset).toVec)
          ((⟨3 / 4, 0, 1 / 3⟩ : Vec3 ℚ).add (⟨0, 2, -1⟩ : Offset).toVec) =
        minimumImage Mat3.identity Mat3.identity ⟨1 / 4, 1 / 2, 0⟩ ⟨3 / 4, 0, 1 / 3⟩ ∧
      s.CacheValid ∧
      (Cell.new s.lattice s.settings).2 =
        .ok ⟨Mat3.identity, ⟨Mat3.identity, Mat3.identity, Mat3.identity, 2, 0⟩⟩ ∧
      s.site? 0 = .ok ⟨1 / 4, 1 / 2, 0⟩ ∧
      s.site? 1 = .ok ((⟨1 / 4, 1 / 2, 0⟩ : Vec3 ℚ).add (⟨1, -1, 2⟩ : Offset).toVec) ∧
      (s.siteDisplacement 0 1).1 = .ok ⟨Vec3.zero, Offset.zero, some 0⟩ := by
  intro s
  have hc : (Cell.new s.lattice s.settings).2 =
      .ok ⟨Mat3.identity, ⟨Mat3.identity, Mat3.identity, Mat3.identity, 2, 0⟩⟩ := by
    decide +kernel
  have hi : s.site? 0 = .ok ⟨1 / 4, 1 / 2, 0⟩ := rfl
  have hj : s.site? 1 = .ok ((⟨1 / 4, 1 / 2, 0⟩ : Vec3 ℚ).add (⟨1, -1, 2⟩ : Offset).toVec) := by
    simp only [s, Structure.site?]
    norm_num [Vec3.add, Offset.toVec]
  exact ⟨isIntegral_identity, minimumImage_translation_invariant.1 _ _ isIntegral_identity _ _ _ _,
    .inl rfl, hc, hi, hj,
    minimumImage_translation_invariant.2 s _ 0 1 _ ⟨1, -1, 2⟩ (.inl rfl) hc hi hj⟩

end CrystalLattice
