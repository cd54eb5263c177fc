import CrystalLattice.Periodic.Cell
import CrystalLattice.Proofs.Unimodular

/-!
# Minimum images

Over the rationals the search keeps a shortest candidate among the 27 images, each a periodic
displacement of the input lattice; when the reduced basis is `WellConditioned` a shortest
displacement lies among them, so the search finds the minimum (`cell_minimumImage_isLeast`). A
skewed basis reduced for `δ` near `1/4` can need an offset of two.
-/

namespace CrystalLattice

open Mat3 Vec3 Reduction

def Mat3.gram (m : Mat3 ℚ) : Mat3 ℚ := Mat3.ofFn fun j k => (m.row j).dot (m.row k)

/-- A basis is well conditioned for the 27-image search when `Σⱼ |G⁻¹ⱼᵢ| ‖rⱼ‖² ≤ 2` for every
`i`, `G` its Gram matrix: the coefficients of a shortest image are then at most one in size. -/
def WellConditioned (m : Mat3 ℚ) : Prop :=
  ∀ i : Fin 3, ∑ j, |m.gram.adjugate.get j i| * (m.row j).normSq ≤ 2 * m.gram.det

instance (m : Mat3 ℚ) : Decidable (WellConditioned m) := by
  unfold WellConditioned
  infer_instance

section Gram

theorem Mat3.gram_get (m : Mat3 ℚ) (j k : Fin 3) : m.gram.get j k = (m.row j).dot (m.row k) := by
  simp [gram, get_def]

theorem Mat3.toMatrix_gram (m : Mat3 ℚ) : m.gram.toMatrix = m.toMatrix * m.toMatrix.transpose := by
  ext j k
  simp only [toMatrix_apply, gram_get, Matrix.mul_apply, Matrix.transpose_apply, Fin.sum_univ_three]
  fin_cases j <;> fin_cases k <;> simp [dot_def, get_def]

theorem Mat3.det_gram (m : Mat3 ℚ) : m.gram.det = m.det ^ 2 := by
  rw [← det_toMatrix, toMatrix_gram, Matrix.det_mul, Matrix.det_transpose, det_toMatrix, sq]

theorem Vec3.get_mulMat_gram (c : Vec3 ℚ) (m : Mat3 ℚ) (j : Fin 3) :
    (c.mulMat m.gram).get j = (c.mulMat m).dot (m.row j) := by
  simp only [gram_get, dot_def, mulMat, ofFn_x, ofFn_y, ofFn_z, scalar_zero_rat, zero_add]
  fin_cases j <;> simp [get_def] <;> ring

theorem Vec3.identity_row_mulMat (m : Mat3 ℚ) (j : Fin 3) :
    ((identity : Mat3 ℚ).row j).mulMat m = m.row j := by
  rw [← row_mul, identity_mul]

theorem Vec3.isIntegral_identity_row (j : Fin 3) : ((identity : Mat3 ℚ).row j).IsIntegral :=
  fun k => isIntegral_identity j k

end Gram

section Coefficients

variable {R : Mat3 ℚ}

/-- A coefficient over an independent basis is bounded by the length of the vector and the length
of a column of the adjugate, since `cᵢ det R = (c R) · (adj R)ᵢ`. -/
theorem coeff_sq_mul_det_sq_le (R : Mat3 ℚ) (c : Vec3 ℚ) (i : Fin 3) :
    c.get i ^ 2 * R.det ^ 2 ≤ (c.mulMat R).normSq * (R.adjugate.col i).normSq := by
  have hcol : (c.mulMat R).dot (R.adjugate.col i) = R.det * c.get i := by
    rw [dot_col, mulMat_mul_adjugate]
    fin_cases i <;> simp
  calc c.get i ^ 2 * R.det ^ 2 = ((c.mulMat R).dot (R.adjugate.col i)) ^ 2 := by rw [hcol]; ring
    _ ≤ (c.mulMat R).normSq * (R.adjugate.col i).normSq := dot_sq_le _ _

theorem abs_get_le_of_normSq_le (hdet : R.det ≠ 0) {c : Vec3 ℚ} {B : ℚ}
    (h : (c.mulMat R).normSq ≤ B) (i : Fin 3) :
    |c.get i| ≤ B * (∑ j, (R.adjugate.col j).normSq) / R.det ^ 2 + 1 := by
  have hdet2 : 0 < R.det ^ 2 := by positivity
  have hcol : (R.adjugate.col i).normSq ≤ ∑ j, (R.adjugate.col j).normSq :=
    Finset.single_le_sum (fun j _ => normSq_nonneg _) (Finset.mem_univ i)
  have hB : 0 ≤ B := (normSq_nonneg _).trans h
  have hsq : c.get i ^ 2 ≤ B * (∑ j, (R.adjugate.col j).normSq) / R.det ^ 2 := by
    rw [le_div_iff₀ hdet2]
    calc c.get i ^ 2 * R.det ^ 2 ≤ (c.mulMat R).normSq * (R.adjugate.col i).normSq :=
          coeff_sq_mul_det_sq_le R c i
      _ ≤ B * ∑ j, (R.adjugate.col j).normSq :=
          mul_le_mul h hcol (normSq_nonneg _) hB
  have habs : |c.get i| ≤ c.get i ^ 2 + 1 := by
    nlinarith [sq_abs (c.get i), abs_nonneg (c.get i)]
  linarith

/-- Under the condition, a point within half a basis vector along each basis vector has every
coefficient at most one in size. -/
theorem WellConditioned.abs_get_le_one (hwc : WellConditioned R) (hdet : R.det ≠ 0)
    {c : Vec3 ℚ} (hc : ∀ j, 2 * |(c.mulMat R).dot (R.row j)| ≤ (R.row j).normSq) (i : Fin 3) :
    |c.get i| ≤ 1 := by
  have hG : 0 < R.gram.det := by rw [det_gram]; positivity
  have hsum : R.gram.det * c.get i =
      ∑ j, (c.mulMat R).dot (R.row j) * R.gram.adjugate.get j i := by
    have h : (c.mulMat R.gram).dot (R.gram.adjugate.col i) = R.gram.det * c.get i := by
      rw [dot_col, mulMat_mul_adjugate]
      fin_cases i <;> simp
    rw [← h, dot_eq_sum]
    exact Finset.sum_congr rfl fun j _ => by rw [get_mulMat_gram, get_col]
  have hbound : ∑ j, |(c.mulMat R).dot (R.row j) * R.gram.adjugate.get j i| ≤ R.gram.det := by
    calc ∑ j, |(c.mulMat R).dot (R.row j) * R.gram.adjugate.get j i|
        ≤ ∑ j, (R.row j).normSq / 2 * |R.gram.adjugate.get j i| := by
          refine Finset.sum_le_sum fun j _ => ?_
          rw [abs_mul]
          exact mul_le_mul_of_nonneg_right (by linarith [hc j]) (abs_nonneg _)
      _ = (∑ j, |R.gram.adjugate.get j i| * (R.row j).normSq) / 2 := by
          rw [Finset.sum_div]
          exact Finset.sum_congr rfl fun j _ => by ring
      _ ≤ R.gram.det := by linarith [hwc i]
  have habs : |c.get i| * R.gram.det ≤ 1 * R.gram.det := by
    calc |c.get i| * R.gram.det = |R.gram.det * c.get i| := by rw [abs_mul, abs_of_pos hG, mul_comm]
      _ ≤ ∑ j, |(c.mulMat R).dot (R.row j) * R.gram.adjugate.get j i| := by
          rw [hsum]
          exact Finset.abs_sum_le_sum_abs _ _
      _ ≤ 1 * R.gram.det := by rw [one_mul]; exact hbound
  exact le_of_mul_le_mul_right habs hG

end Coefficients

section Offsets

theorem Offset.toVec_rat (o : Offset) : (o.toVec : Vec3 ℚ) = ⟨o.i, o.j, o.k⟩ := rfl

theorem Offset.toVec_isIntegral (o : Offset) : (o.toVec : Vec3 ℚ).IsIntegral := by
  intro j
  fin_cases j
  · exact ⟨o.i, rfl⟩
  · exact ⟨o.j, rfl⟩
  · exact ⟨o.k, rfl⟩

theorem Vec3.IsIntegral.exists_offset {v : Vec3 ℚ} (h : v.IsIntegral) :
    ∃ o : Offset, o.toVec = v := by
  obtain ⟨a, ha⟩ := h 0
  obtain ⟨b, hb⟩ := h 1
  obtain ⟨c, hc⟩ := h 2
  exact ⟨⟨a, b, c⟩, Vec3.ext ha.symm hb.symm hc.symm⟩

def Offset.box (K : ℕ) : Finset Offset :=
  let r := Finset.range (2 * K + 1)
  (r ×ˢ r ×ˢ r).image fun p => ⟨(p.1 : ℤ) - K, (p.2.1 : ℤ) - K, (p.2.2 : ℤ) - K⟩

theorem Offset.mem_box {K : ℕ} {o : Offset} (h : ∀ j, |(o.toVec : Vec3 ℚ).get j| ≤ K) :
    o ∈ Offset.box K := by
  obtain ⟨a, b, c⟩ := o
  have ha : |(a : ℚ)| ≤ K := by simpa [toVec_rat] using h 0
  have hb : |(b : ℚ)| ≤ K := by simpa [toVec_rat] using h 1
  have hc : |(c : ℚ)| ≤ K := by simpa [toVec_rat] using h 2
  have ha' := abs_le.mp (show |a| ≤ K by exact_mod_cast ha)
  have hb' := abs_le.mp (show |b| ≤ K by exact_mod_cast hb)
  have hc' := abs_le.mp (show |c| ≤ K by exact_mod_cast hc)
  simp only [box, Finset.mem_image, Finset.mem_product, Finset.mem_range, Prod.exists,
    Offset.mk.injEq]
  exact ⟨(a + K).toNat, (b + K).toNat, (c + K).toNat, ⟨by omega, by omega, by omega⟩,
    by omega, by omega, by omega⟩

theorem Offset.mem_images {o : Offset} (h : ∀ j, |(o.toVec : Vec3 ℚ).get j| < 2) :
    o ∈ Offset.images := by
  obtain ⟨a, b, c⟩ := o
  have ha : |(a : ℚ)| < 2 := by simpa [toVec_rat] using h 0
  have hb : |(b : ℚ)| < 2 := by simpa [toVec_rat] using h 1
  have hc : |(c : ℚ)| < 2 := by simpa [toVec_rat] using h 2
  have ha' := abs_lt.mp (show |a| < 2 by exact_mod_cast ha)
  have hb' := abs_lt.mp (show |b| < 2 by exact_mod_cast hb)
  have hc' := abs_lt.mp (show |c| < 2 by exact_mod_cast hc)
  simp only [images, List.mem_flatMap, List.mem_map, List.mem_cons, List.not_mem_nil, or_false,
    Offset.mk.injEq]
  exact ⟨a, by omega, b, by omega, c, by omega, rfl, rfl, rfl⟩

end Offsets

section Shortest

variable {R : Mat3 ℚ} {d : Vec3 ℚ}

/-- Some image of a point is a shortest one: the images no longer than the point itself have
bounded coefficients, so they are finitely many. -/
theorem exists_shortest_image (hdet : R.det ≠ 0) (d : Vec3 ℚ) :
    ∃ o : Offset, ∀ o' : Offset,
      ((d.add o.toVec).mulMat R).normSq ≤ ((d.add o'.toVec).mulMat R).normSq := by
  set B := (d.mulMat R).normSq
  set K := ⌈B * (∑ j, (R.adjugate.col j).normSq) / R.det ^ 2 + 1 + (|d.x| + |d.y| + |d.z|)⌉₊
  have hbox : ∀ o : Offset, ((d.add o.toVec).mulMat R).normSq ≤ B → o ∈ Offset.box K := by
    intro o ho
    refine Offset.mem_box fun j => ?_
    have hc := abs_get_le_of_normSq_le hdet ho j
    have hd : |d.get j| ≤ |d.x| + |d.y| + |d.z| := by
      fin_cases j <;> simp <;> linarith [abs_nonneg d.x, abs_nonneg d.y, abs_nonneg d.z]
    calc |(o.toVec : Vec3 ℚ).get j| = |(d.add o.toVec).get j - d.get j| := by
          rw [get_add, add_sub_cancel_left]
      _ ≤ |(d.add o.toVec).get j| + |d.get j| := abs_sub _ _
      _ ≤ B * (∑ j, (R.adjugate.col j).normSq) / R.det ^ 2 + 1 + (|d.x| + |d.y| + |d.z|) :=
          add_le_add hc hd
      _ ≤ K := Nat.le_ceil _
  have hzeroVec : d.add (Offset.zero.toVec : Vec3 ℚ) = d := by
    ext <;> simp [Offset.zero, Offset.toVec_rat]
  have hzero : Offset.zero ∈ Offset.box K := hbox _ (by rw [hzeroVec])
  obtain ⟨o, -, hmin⟩ := (Offset.box K).exists_min_image
    (fun o => ((d.add o.toVec).mulMat R).normSq) ⟨_, hzero⟩
  refine ⟨o, fun o' => ?_⟩
  by_cases h' : ((d.add o'.toVec).mulMat R).normSq ≤ B
  · exact hmin o' (hbox o' h')
  · calc ((d.add o.toVec).mulMat R).normSq
        ≤ ((d.add (Offset.zero.toVec : Vec3 ℚ)).mulMat R).normSq := hmin _ hzero
      _ = B := by rw [hzeroVec]
      _ ≤ ((d.add o'.toVec).mulMat R).normSq := (not_le.mp h').le

/-- A shortest image is within half a basis vector along each basis vector: one basis vector
more or less would otherwise shorten it. -/
theorem two_mul_abs_dot_le {o : Offset} (hmin : ∀ o' : Offset,
      ((d.add o.toVec).mulMat R).normSq ≤ ((d.add o'.toVec).mulMat R).normSq) (j : Fin 3) :
    2 * |((d.add o.toVec).mulMat R).dot (R.row j)| ≤ (R.row j).normSq := by
  set v := (d.add o.toVec).mulMat R
  have hplus : v.normSq ≤ (v.add (R.row j)).normSq := by
    obtain ⟨o', ho'⟩ := (o.toVec_isIntegral.add (isIntegral_identity_row j)).exists_offset
    have hv : (d.add o'.toVec).mulMat R = v.add (R.row j) := by
      rw [ho', ← identity_row_mulMat R j]
      ext <;> simp [v] <;> ring
    rw [← hv]
    exact hmin o'
  have hminus : v.normSq ≤ (v.sub (R.row j)).normSq := by
    obtain ⟨o', ho'⟩ := (o.toVec_isIntegral.sub (isIntegral_identity_row j)).exists_offset
    have hv : (d.add o'.toVec).mulMat R = v.sub (R.row j) := by
      rw [ho', ← identity_row_mulMat R j]
      ext <;> simp [v] <;> ring
    rw [← hv]
    exact hmin o'
  rw [normSq_add] at hplus
  rw [normSq_sub] at hminus
  calc 2 * |v.dot (R.row j)| = |2 * v.dot (R.row j)| := by rw [abs_mul, abs_two]
    _ ≤ (R.row j).normSq := abs_le.mpr ⟨by linarith, by linarith⟩

/-- Under the condition, a shortest image of a point of `(-1, 1)³` has its offset among the 27
searched. -/
theorem WellConditioned.shortest_mem_images (hwc : WellConditioned R) (hdet : R.det ≠ 0)
    (hd : ∀ j, |d.get j| < 1) {o : Offset} (hmin : ∀ o' : Offset,
      ((d.add o.toVec).mulMat R).normSq ≤ ((d.add o'.toVec).mulMat R).normSq) :
    o ∈ Offset.images := by
  have hc := hwc.abs_get_le_one hdet (two_mul_abs_dot_le hmin)
  refine Offset.mem_images fun j => ?_
  calc |(o.toVec : Vec3 ℚ).get j| = |(d.add o.toVec).get j - d.get j| := by
        rw [get_add, add_sub_cancel_left]
    _ ≤ |(d.add o.toVec).get j| + |d.get j| := abs_sub _ _
    _ < 1 + 1 := add_lt_add_of_le_of_lt (hc j) (hd j)
    _ = 2 := by norm_num

end Shortest

section Wrap

/-- Over the rationals a difference from the floor is below one, so wrapping takes the
fractional part of each coordinate. -/
theorem wrap_rat (f : Vec3 ℚ) : wrap f = f.map Int.fract := by
  have hlt : ∀ x : ℚ, ¬ (1 ≤ Int.fract x) := fun x => not_le.mpr (Int.fract_lt_one x)
  ext <;> simp [wrap, Vec3.map, Vec3.floor, hlt]

theorem wrap_eq_sub_floor (f : Vec3 ℚ) : wrap f = f.sub f.floor := by
  rw [wrap_rat]
  ext <;> simp [Vec3.map, Vec3.floor]

theorem floor_isIntegral (f : Vec3 ℚ) : f.floor.IsIntegral := by
  intro j
  fin_cases j
  · exact ⟨⌊f.x⌋, rfl⟩
  · exact ⟨⌊f.y⌋, rfl⟩
  · exact ⟨⌊f.z⌋, rfl⟩

theorem abs_get_wrap_sub_wrap_lt (g₁ g₂ : Vec3 ℚ) (j : Fin 3) :
    |((wrap g₂).sub (wrap g₁)).get j| < 1 := by
  have hfract : ∀ g : Vec3 ℚ, 0 ≤ (wrap g).get j ∧ (wrap g).get j < 1 := by
    intro g
    rw [wrap_rat]
    fin_cases j
    · exact ⟨Int.fract_nonneg _, Int.fract_lt_one _⟩
    · exact ⟨Int.fract_nonneg _, Int.fract_lt_one _⟩
    · exact ⟨Int.fract_nonneg _, Int.fract_lt_one _⟩
  obtain ⟨h₁, h₁'⟩ := hfract g₁
  obtain ⟨h₂, h₂'⟩ := hfract g₂
  rw [get_sub, abs_sub_lt_iff]
  constructor <;> linarith

end Wrap

section Search

variable (reduced : Mat3 ℚ) (pre : Vec3 ℚ)

def imageCandidate (o : Offset) : Vec3 ℚ := pre.add ((o.toVec : Vec3 ℚ).mulMat reduced)

/-- `best` is a shortest candidate among the images `seen`, with its squared length
recorded. -/
def ShortestAmong (seen : List Offset) (best : Displacement ℚ) : Prop :=
  ∃ o ∈ seen, best.vector = imageCandidate reduced pre o ∧
    best.lengthSq = some (imageCandidate reduced pre o).normSq ∧
    ∀ o' ∈ seen, (imageCandidate reduced pre o).normSq ≤ (imageCandidate reduced pre o').normSq

variable {reduced pre}

theorem imageCandidate_mulMat (d : Vec3 ℚ) (o : Offset) :
    imageCandidate reduced (d.mulMat reduced) o = (d.add o.toVec).mulMat reduced := by
  rw [imageCandidate, add_mulMat]

theorem keepShorter_none {best : Displacement ℚ} (h : best.lengthSq = none) (o : Offset) :
    ShortestAmong reduced pre [o] (keepShorter reduced pre best o) := by
  refine ⟨o, List.mem_singleton_self o, ?_, ?_, ?_⟩
  · simp [keepShorter, h, imageCandidate]
  · simp [keepShorter, h, imageCandidate]
  · intro o' ho'
    rw [List.mem_singleton.mp ho']

theorem ShortestAmong.keepShorter {seen : List Offset} {best : Displacement ℚ}
    (h : ShortestAmong reduced pre seen best) (o : Offset) :
    ShortestAmong reduced pre (seen ++ [o]) (CrystalLattice.keepShorter reduced pre best o) := by
  obtain ⟨b, hb, hvec, hlen, hmin⟩ := h
  by_cases hlt : (imageCandidate reduced pre o).normSq < (imageCandidate reduced pre b).normSq
  · -- the new image is strictly shorter and replaces the best so far
    have hkeep : CrystalLattice.keepShorter reduced pre best o =
        ⟨imageCandidate reduced pre o, o, some (imageCandidate reduced pre o).normSq⟩ := by
      simp [CrystalLattice.keepShorter, hlen, imageCandidate] at hlt ⊢
      simp [hlt]
    rw [hkeep]
    refine ⟨o, by simp, rfl, rfl, fun o' ho' => ?_⟩
    rcases List.mem_append.mp ho' with hs | hs
    · exact hlt.le.trans (hmin o' hs)
    · rw [List.mem_singleton.mp hs]
  · -- a tie or a longer image keeps the earlier one
    have hkeep : CrystalLattice.keepShorter reduced pre best o = best := by
      simp [CrystalLattice.keepShorter, hlen, imageCandidate] at hlt ⊢
      simp [hlt]
    rw [hkeep]
    refine ⟨b, List.mem_append_left _ hb, hvec, hlen, fun o' ho' => ?_⟩
    rcases List.mem_append.mp ho' with hs | hs
    · exact hmin o' hs
    · rw [List.mem_singleton.mp hs]
      exact le_of_not_gt hlt

theorem ShortestAmong.foldl {seen : List Offset} {best : Displacement ℚ}
    (h : ShortestAmong reduced pre seen best) (l : List Offset) :
    ShortestAmong reduced pre (seen ++ l)
      (l.foldl (CrystalLattice.keepShorter reduced pre) best) := by
  induction l generalizing seen best with
  | nil => simpa using h
  | cons o l ih => simpa using ih (h.keepShorter o)

theorem foldl_keepShorter_shortest {l : List Offset} (hl : l ≠ []) :
    ShortestAmong reduced pre l
      (l.foldl (keepShorter reduced pre) ⟨Vec3.zero, Offset.zero, none⟩) := by
  obtain ⟨o, l, rfl⟩ := List.exists_cons_of_ne_nil hl
  have hfirst : ShortestAmong reduced pre [o]
      (keepShorter reduced pre ⟨Vec3.zero, Offset.zero, none⟩ o) := keepShorter_none rfl o
  simpa using hfirst.foldl l

end Search

section Optimality

def wrappedDifference (inverse : Mat3 ℚ) (f₁ f₂ : Vec3 ℚ) : Vec3 ℚ :=
  (wrap (f₂.mulMat inverse)).sub (wrap (f₁.mulMat inverse))

/-- The squared lengths of the displacements from `f₁` to the periodic images of `f₂` in a
lattice. -/
def periodicLengths (lattice : Mat3 ℚ) (f₁ f₂ : Vec3 ℚ) : Set ℚ :=
  {s | ∃ n : Offset, s = (((f₂.sub f₁).add n.toVec).mulMat lattice).normSq}

/-- The wrapped difference is the difference read in the reduced frame, less the difference of
the integral floors. -/
theorem wrappedDifference_eq (inverse : Mat3 ℚ) (f₁ f₂ : Vec3 ℚ) :
    wrappedDifference inverse f₁ f₂ = ((f₂.sub f₁).mulMat inverse).sub
      ((f₂.mulMat inverse).floor.sub (f₁.mulMat inverse).floor) := by
  rw [wrappedDifference, wrap_eq_sub_floor, wrap_eq_sub_floor, sub_mulMat]
  ext <;> simp <;> ring

theorem minimumImage_shortestAmong (reduced inverse : Mat3 ℚ) (f₁ f₂ : Vec3 ℚ) :
    ShortestAmong reduced ((wrappedDifference inverse f₁ f₂).mulMat reduced) Offset.images
      (minimumImage reduced inverse f₁ f₂) := by
  rw [minimumImage, wrappedDifference, sub_mulMat]
  exact foldl_keepShorter_shortest (by simp [Offset.images])

variable {lattice : Mat3 ℚ} {res : Result ℚ}

theorem Reduction.ReducesTo.candidate_periodic (h : ReducesTo lattice res) (f₁ f₂ : Vec3 ℚ)
    (o : Offset) : ∃ n : Offset,
      ((wrappedDifference res.inverse f₁ f₂).add o.toVec).mulMat res.reduced =
        ((f₂.sub f₁).add n.toVec).mulMat lattice := by
  have hz : ((f₂.mulMat res.inverse).floor.sub (f₁.mulMat res.inverse).floor).IsIntegral :=
    (floor_isIntegral _).sub (floor_isIntegral _)
  obtain ⟨n, hn⟩ := ((o.toVec_isIntegral.sub hz).mulMat h.sameLattice.integral).exists_offset
  refine ⟨n, ?_⟩
  rw [hn, wrappedDifference_eq]
  simp only [add_mulMat, sub_mulMat, ← mulMat_mul, ← h.sameLattice.basis_eq, h.inverse_mul_reduced]
  ext <;> simp <;> ring

theorem Reduction.ReducesTo.periodic_candidate (h : ReducesTo lattice res) (f₁ f₂ : Vec3 ℚ)
    (n : Offset) : ∃ o : Offset, ((f₂.sub f₁).add n.toVec).mulMat lattice =
      ((wrappedDifference res.inverse f₁ f₂).add o.toVec).mulMat res.reduced := by
  have hz : ((f₂.mulMat res.inverse).floor.sub (f₁.mulMat res.inverse).floor).IsIntegral :=
    (floor_isIntegral _).sub (floor_isIntegral _)
  obtain ⟨o, ho⟩ := (hz.add (n.toVec_isIntegral.mulMat h.inverse_integral)).exists_offset
  refine ⟨o, ?_⟩
  rw [ho, wrappedDifference_eq, ← h.inverse_mul_reduced, mulMat_mul]
  congr 1
  ext <;> simp <;> ring

/-- The search always returns a periodic displacement of the input lattice, with its squared
length recorded. -/
theorem Reduction.ReducesTo.minimumImage_periodic (h : ReducesTo lattice res) (f₁ f₂ : Vec3 ℚ) :
    ∃ n : Offset, (minimumImage res.reduced res.inverse f₁ f₂).vector =
        ((f₂.sub f₁).add n.toVec).mulMat lattice ∧
      (minimumImage res.reduced res.inverse f₁ f₂).lengthSq =
        some (minimumImage res.reduced res.inverse f₁ f₂).vector.normSq := by
  obtain ⟨o, -, hvec, hlen, -⟩ := minimumImage_shortestAmong res.reduced res.inverse f₁ f₂
  obtain ⟨n, hn⟩ := h.candidate_periodic f₁ f₂ o
  refine ⟨n, ?_, ?_⟩
  · rw [hvec, imageCandidate_mulMat, hn]
  · rw [hlen, hvec]

/-- With a well-conditioned reduced basis the search finds a shortest periodic displacement. -/
theorem Reduction.ReducesTo.minimumImage_isLeast (h : ReducesTo lattice res)
    (hwc : WellConditioned res.reduced) (f₁ f₂ : Vec3 ℚ) :
    IsLeast (periodicLengths lattice f₁ f₂)
      (minimumImage res.reduced res.inverse f₁ f₂).vector.normSq := by
  set d := wrappedDifference res.inverse f₁ f₂
  obtain ⟨o, -, hvec, -, hmin⟩ := minimumImage_shortestAmong res.reduced res.inverse f₁ f₂
  refine ⟨?_, ?_⟩
  · obtain ⟨n, hn, -⟩ := h.minimumImage_periodic f₁ f₂
    exact ⟨n, by rw [hn]⟩
  · rintro s ⟨n, rfl⟩
    obtain ⟨o', ho'⟩ := h.periodic_candidate f₁ f₂ n
    obtain ⟨oBest, hbest⟩ := exists_shortest_image h.reduced_det_ne_zero d
    have hwin : oBest ∈ Offset.images :=
      hwc.shortest_mem_images h.reduced_det_ne_zero (abs_get_wrap_sub_wrap_lt _ _) hbest
    calc (minimumImage res.reduced res.inverse f₁ f₂).vector.normSq
        = (imageCandidate res.reduced (d.mulMat res.reduced) o).normSq := by rw [hvec]
      _ ≤ (imageCandidate res.reduced (d.mulMat res.reduced) oBest).normSq := hmin oBest hwin
      _ = ((d.add oBest.toVec).mulMat res.reduced).normSq := by rw [imageCandidate_mulMat]
      _ ≤ ((d.add o'.toVec).mulMat res.reduced).normSq := hbest o'
      _ = (((f₂.sub f₁).add n.toVec).mulMat lattice).normSq := by rw [ho']

theorem Cell.new_eq_ok {α : Type} [Scalar α] {lattice : Mat3 α} {settings : List (Setting α)}
    {c : Cell α} (h : (Cell.new lattice settings).2 = .ok c) :
    (reduce lattice settings).result = .ok c.reduction ∧ c.lattice = lattice := by
  have h' := mapError_eq_ok h
  cases hr : (reduce lattice settings).result with
  | error e => simp [hr, Except.map] at h'
  | ok red =>
    simp only [hr, Except.map, Except.ok.injEq] at h'
    subst h'
    exact ⟨rfl, rfl⟩

/-- Over the rationals, the minimum image of a cell whose reduced basis is well conditioned is a
shortest displacement from `f₁` to the periodic images of `f₂`: no image outside the 27 searched
is shorter. -/
theorem cell_minimumImage_isLeast {lattice : Mat3 ℚ} {settings : List (Setting ℚ)} {c : Cell ℚ}
    (h : (Cell.new lattice settings).2 = .ok c) (hwc : WellConditioned c.reduction.reduced)
    (f₁ f₂ : Vec3 ℚ) :
    IsLeast (periodicLengths lattice f₁ f₂) (c.minimumImage f₁ f₂).vector.normSq := by
  obtain ⟨hres, -⟩ := Cell.new_eq_ok h
  exact (reduce_reducesTo hres).minimumImage_isLeast hwc f₁ f₂

/-- A sheared cell, reduced by subtracting four times the first vector from the second: the
reduced basis is well conditioned, so the search is exact there. -/
theorem shearedCell_minimumImage_isLeast :
    let c : Cell ℚ := ⟨⟨⟨3, 0, 0⟩, ⟨13, 3, 0⟩, ⟨0, 0, 3⟩⟩,
      ⟨⟨⟨3, 0, 0⟩, ⟨1, 3, 0⟩, ⟨0, 0, 3⟩⟩, ⟨⟨1, 0, 0⟩, ⟨-4, 1, 0⟩, ⟨0, 0, 1⟩⟩,
        ⟨⟨1, 0, 0⟩, ⟨4, 1, 0⟩, ⟨0, 0, 1⟩⟩, 2, 0⟩⟩
    (Cell.new c.lattice []).2 = .ok c ∧ WellConditioned c.reduction.reduced ∧
      IsLeast (periodicLengths c.lattice ⟨1 / 3, 1 / 4, 0⟩ ⟨5 / 2, -1 / 3, 7 / 8⟩)
        (c.minimumImage ⟨1 / 3, 1 / 4, 0⟩ ⟨5 / 2, -1 / 3, 7 / 8⟩).vector.normSq := by
  intro c
  have hgs : GramSchmidt.compute c.lattice (Options.ofSettings [] : Options ℚ).tolerance =
      .ok ⟨⟨⟨3, 0, 0⟩, ⟨0, 3, 0⟩, ⟨0, 0, 3⟩⟩, ⟨9, 9, 9⟩,
        ⟨⟨0, 0, 0⟩, ⟨13 / 3, 0, 0⟩, ⟨0, 0, 0⟩⟩⟩ := by
    dsimp only [c]
    with_unfolding_all rfl
  have h₁ : Progress.step (Options.ofSettings [] : Options ℚ)
      ⟨c.lattice, identity,
        ⟨⟨⟨3, 0, 0⟩, ⟨0, 3, 0⟩, ⟨0, 0, 3⟩⟩, ⟨9, 9, 9⟩, ⟨⟨0, 0, 0⟩, ⟨13 / 3, 0, 0⟩, ⟨0, 0, 0⟩⟩⟩,
        2, 0, 0⟩ =
      .ok (⟨c.reduction.reduced, c.reduction.mapping,
        ⟨⟨⟨3, 0, 0⟩, ⟨0, 3, 0⟩, ⟨0, 0, 3⟩⟩, ⟨9, 9, 9⟩, ⟨⟨0, 0, 0⟩, ⟨1 / 3, 0, 0⟩, ⟨0, 0, 0⟩⟩⟩,
        3, 1, 0⟩, ⟨1, 2, .advance, 1, 0⟩) := by
    dsimp only [c]
    with_unfolding_all rfl
  have h₂ : Progress.step (Options.ofSettings [] : Options ℚ)
      ⟨c.reduction.reduced, c.reduction.mapping,
        ⟨⟨⟨3, 0, 0⟩, ⟨0, 3, 0⟩, ⟨0, 0, 3⟩⟩, ⟨9, 9, 9⟩, ⟨⟨0, 0, 0⟩, ⟨1 / 3, 0, 0⟩, ⟨0, 0, 0⟩⟩⟩,
        3, 1, 0⟩ =
      .ok (⟨c.reduction.reduced, c.reduction.mapping,
        ⟨⟨⟨3, 0, 0⟩, ⟨0, 3, 0⟩, ⟨0, 0, 3⟩⟩, ⟨9, 9, 9⟩, ⟨⟨0, 0, 0⟩, ⟨1 / 3, 0, 0⟩, ⟨0, 0, 0⟩⟩⟩,
        4, 2, 0⟩, ⟨2, 3, .advance, 0, 0⟩) := by
    dsimp only [c]
    with_unfolding_all rfl
  have hres : (reduce c.lattice []).result = .ok c.reduction := by
    rw [reduce_result_of_run rfl (validateFinite_rat _) hgs
      ((runSteps_succ_of_step (by decide) h₁ 9999).trans
        ((runSteps_succ_of_step (by decide) h₂ 9998).trans (runSteps_of_lt (by decide) 9998)))]
    dsimp only [c]
    with_unfolding_all rfl
  have hnew : (Cell.new c.lattice []).2 = .ok c := by
    simp only [Cell.new, hres]
    dsimp only [c]
    rfl
  have hwc : WellConditioned (⟨⟨3, 0, 0⟩, ⟨1, 3, 0⟩, ⟨0, 0, 3⟩⟩ : Mat3 ℚ) := by decide +kernel
  exact ⟨hnew, hwc, cell_minimumImage_isLeast hnew hwc _ _⟩

/-- A basis that is LLL-reduced for the parameter `0.2501` but skewed, on which the search
misses: from `(15/32, 15/16, 1/8)` to the origin it returns a displacement of squared length
`16433 / 2²⁸`, while the image at offset `(0, 0, 2)` has squared length `225 / 2²⁸`. -/
theorem skewedCell_minimumImage_not_least :
    let c : Cell ℚ := ⟨⟨⟨1, 0, 0⟩, ⟨1 / 2, 1 / 64, 0⟩, ⟨1 / 2, 1 / 128, 1 / 2048⟩⟩,
      ⟨⟨⟨1, 0, 0⟩, ⟨1 / 2, 1 / 64, 0⟩, ⟨1 / 2, 1 / 128, 1 / 2048⟩⟩, identity, identity, 2, 0⟩⟩
    (Cell.new c.lattice [.delta 0.2501]).2 = .ok c ∧
      ¬ IsLeast (periodicLengths c.lattice ⟨15 / 32, 15 / 16, 1 / 8⟩ Vec3.zero)
        (c.minimumImage ⟨15 / 32, 15 / 16, 1 / 8⟩ Vec3.zero).vector.normSq := by
  intro c
  have hgs :
      GramSchmidt.compute c.lattice (Options.ofSettings [.delta 0.2501] : Options ℚ).tolerance =
      .ok ⟨⟨⟨1, 0, 0⟩, ⟨0, 1 / 64, 0⟩, ⟨0, 0, 1 / 2048⟩⟩, ⟨1, 1 / 4096, 1 / 4194304⟩,
        ⟨⟨0, 0, 0⟩, ⟨1 / 2, 0, 0⟩, ⟨1 / 2, 1 / 2, 0⟩⟩⟩ := by
    dsimp only [c]
    with_unfolding_all rfl
  have h₁ : Progress.step (Options.ofSettings [.delta 0.2501] : Options ℚ)
      ⟨c.lattice, identity, ⟨⟨⟨1, 0, 0⟩, ⟨0, 1 / 64, 0⟩, ⟨0, 0, 1 / 2048⟩⟩,
        ⟨1, 1 / 4096, 1 / 4194304⟩, ⟨⟨0, 0, 0⟩, ⟨1 / 2, 0, 0⟩, ⟨1 / 2, 1 / 2, 0⟩⟩⟩, 2, 0, 0⟩ =
      .ok (⟨c.lattice, identity, ⟨⟨⟨1, 0, 0⟩, ⟨0, 1 / 64, 0⟩, ⟨0, 0, 1 / 2048⟩⟩,
        ⟨1, 1 / 4096, 1 / 4194304⟩, ⟨⟨0, 0, 0⟩, ⟨1 / 2, 0, 0⟩, ⟨1 / 2, 1 / 2, 0⟩⟩⟩, 3, 1, 0⟩,
        ⟨1, 2, .advance, 0, 0⟩) := by
    dsimp only [c]
    with_unfolding_all rfl
  have h₂ : Progress.step (Options.ofSettings [.delta 0.2501] : Options ℚ)
      ⟨c.lattice, identity, ⟨⟨⟨1, 0, 0⟩, ⟨0, 1 / 64, 0⟩, ⟨0, 0, 1 / 2048⟩⟩,
        ⟨1, 1 / 4096, 1 / 4194304⟩, ⟨⟨0, 0, 0⟩, ⟨1 / 2, 0, 0⟩, ⟨1 / 2, 1 / 2, 0⟩⟩⟩, 3, 1, 0⟩ =
      .ok (⟨c.lattice, identity, ⟨⟨⟨1, 0, 0⟩, ⟨0, 1 / 64, 0⟩, ⟨0, 0, 1 / 2048⟩⟩,
        ⟨1, 1 / 4096, 1 / 4194304⟩, ⟨⟨0, 0, 0⟩, ⟨1 / 2, 0, 0⟩, ⟨1 / 2, 1 / 2, 0⟩⟩⟩, 4, 2, 0⟩,
        ⟨2, 3, .advance, 0, 0⟩) := by
    dsimp only [c]
    with_unfolding_all rfl
  have hfault : (Options.ofSettings [.delta 0.2501] : Options ℚ).fault = none := by
    with_unfolding_all rfl
  have hbudget : (Options.ofSettings [.delta 0.2501] : Options ℚ).maxSteps = 9999 + 1 := by
    with_unfolding_all rfl
  have hres : (reduce c.lattice [.delta 0.2501]).result = .ok c.reduction := by
    rw [reduce_result_of_run hfault (validateFinite_rat _) hgs (hbudget ▸
      (runSteps_succ_of_step (by decide) h₁ 9999).trans
        ((runSteps_succ_of_step (by decide) h₂ 9998).trans (runSteps_of_lt (by decide) 9998)))]
    dsimp only [c]
    with_unfolding_all rfl
  have hnew : (Cell.new c.lattice [.delta 0.2501]).2 = .ok c := by
    simp only [Cell.new, hres]
    dsimp only [c]
    rfl
  refine ⟨hnew, fun hleast => ?_⟩
  have hfound : (c.minimumImage ⟨15 / 32, 15 / 16, 1 / 8⟩ Vec3.zero).vector.normSq =
      16433 / 268435456 := by
    decide +kernel
  have hmissed : (((Vec3.zero.sub ⟨15 / 32, 15 / 16, 1 / 8⟩).add (⟨0, 0, 2⟩ : Offset).toVec).mulMat
      c.lattice).normSq = 225 / 268435456 := by
    dsimp only [c]
    with_unfolding_all rfl
  have hle := hleast.2 ⟨⟨0, 0, 2⟩, hmissed.symm⟩
  rw [hfound] at hle
  norm_num at hle

end Optimality

end CrystalLattice
