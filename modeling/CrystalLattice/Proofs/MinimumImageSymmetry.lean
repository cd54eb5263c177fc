import Mathlib
import CrystalLattice.Periodic.Cell
import CrystalLattice.Proofs.Binary64Sign

/-!
# Symmetry of the minimum image in binary64

Swapping the two points negates every candidate up to the signs of zeros, which leaves every
squared length as it was; on squared lengths the IEEE comparison is a linear order, so both
searches keep the same distance, bit for bit (`minimumImage_swap_symmetry`).
-/

namespace CrystalLattice

open Binary64

namespace Offset

def neg (o : Offset) : Offset := ⟨-o.i, -o.j, -o.k⟩

@[simp] theorem neg_neg (o : Offset) : o.neg.neg = o := by
  simp [neg]

theorem images_map_neg : images.map neg = images.reverse := by decide

theorem neg_mem_images {o : Offset} (h : o ∈ images) : o.neg ∈ images := by
  rw [← List.mem_reverse, ← images_map_neg]
  exact List.mem_map_of_mem h

theorem abs_le_one_of_mem_images {o : Offset} (h : o ∈ images) :
    |o.i| ≤ 1 ∧ |o.j| ≤ 1 ∧ |o.k| ≤ 1 := by
  simp only [images, List.mem_flatMap, List.mem_map, List.mem_cons, List.not_mem_nil,
    or_false] at h
  obtain ⟨i, hi, j, hj, k, hk, rfl⟩ := h
  refine ⟨?_, ?_, ?_⟩ <;> simp only [abs_le] <;> omega

end Offset

namespace Vec3

/-- `v` and `w` agree in each component up to the sign of a zero. -/
def EqUpToZeroSign (v w : Vec3 Float) : Prop :=
  Binary64.EqUpToZeroSign v.x w.x ∧ Binary64.EqUpToZeroSign v.y w.y ∧
    Binary64.EqUpToZeroSign v.z w.z

variable {v v' w w' : Vec3 Float}

theorem eqUpToZeroSign_sub_swap (v w : Vec3 Float) :
    (w.sub v).EqUpToZeroSign ((v.sub w).map (- ·)) :=
  ⟨Binary64.eqUpToZeroSign_sub_swap _ _, Binary64.eqUpToZeroSign_sub_swap _ _,
    Binary64.eqUpToZeroSign_sub_swap _ _⟩

theorem EqUpToZeroSign.add_neg (hv : v'.EqUpToZeroSign (v.map (- ·)))
    (hw : w'.EqUpToZeroSign (w.map (- ·))) : (v'.add w').EqUpToZeroSign ((v.add w).map (- ·)) :=
  ⟨hv.1.add_neg hw.1, hv.2.1.add_neg hw.2.1, hv.2.2.add_neg hw.2.2⟩

/-- Multiplying by a matrix commutes with negation, up to the signs of zeros: each component
is a sum `0 + a + b + c` of products with the same matrix entries. -/
theorem EqUpToZeroSign.mulMat_neg (hv : v'.EqUpToZeroSign (v.map (- ·))) (m : Mat3 Float) :
    (v'.mulMat m).EqUpToZeroSign ((v.mulMat m).map (- ·)) := by
  have hcol : ∀ j : Fin 3, Binary64.EqUpToZeroSign
      (Scalar.zero + v'.x * m.get 0 j + v'.y * m.get 1 j + v'.z * m.get 2 j)
      (-(Scalar.zero + v.x * m.get 0 j + v.y * m.get 1 j + v.z * m.get 2 j)) := fun j =>
    ((eqUpToZeroSign_zero_neg.add_neg (hv.1.mul_neg _)).add_neg (hv.2.1.mul_neg _)).add_neg
      (hv.2.2.mul_neg _)
  exact ⟨hcol 0, hcol 1, hcol 2⟩

theorem EqUpToZeroSign.normSq_eq (hv : v'.EqUpToZeroSign (v.map (- ·))) : v'.normSq = v.normSq := by
  change v'.x * v'.x + v'.y * v'.y + v'.z * v'.z = v.x * v.x + v.y * v.y + v.z * v.z
  rw [hv.1.mul_self, hv.2.1.mul_self, hv.2.2.mul_self]

theorem hasPositiveSign_normSq (v : Vec3 Float) : HasPositiveSign v.normSq :=
  ((hasPositiveSign_mul_self v.x).add (hasPositiveSign_mul_self v.y)).add
    (hasPositiveSign_mul_self v.z)

end Vec3

theorem Offset.toVec_neg {o : Offset} (h : o ∈ Offset.images) :
    (o.neg.toVec : Vec3 Float).EqUpToZeroSign ((o.toVec : Vec3 Float).map (- ·)) := by
  obtain ⟨hi, hj, hk⟩ := Offset.abs_le_one_of_mem_images h
  exact ⟨eqUpToZeroSign_ofInt_neg (by omega), eqUpToZeroSign_ofInt_neg (by omega),
    eqUpToZeroSign_ofInt_neg (by omega)⟩

namespace Binary64

section Search

variable (reduced : Mat3 Float) (pre : Vec3 Float)

def imageDisplacement (o : Offset) : Vec3 Float := pre.add ((o.toVec : Vec3 Float).mulMat reduced)

/-- What a search over the images `seen` keeps: nothing when no candidate has a finite
squared length, and otherwise a candidate of finite squared length with its image and
squared length, which no candidate undercuts. -/
def KeptAmong (seen : List Offset) (best : Displacement Float) : Prop :=
  (best = ⟨Vec3.zero, Offset.zero, none⟩ ∧
      ∀ o ∈ seen, (imageDisplacement reduced pre o).normSq.isFinite = false) ∨
    ∃ o ∈ seen, best = ⟨imageDisplacement reduced pre o, o, some (imageDisplacement reduced pre o).normSq⟩ ∧
      (imageDisplacement reduced pre o).normSq.isFinite = true ∧
      ∀ o' ∈ seen, ¬(imageDisplacement reduced pre o').normSq < (imageDisplacement reduced pre o).normSq

@[simp] theorem scalar_lt_float (x y : Float) : Scalar.lt x y = decide (x < y) := rfl

@[simp] theorem scalar_isFinite_float (x : Float) : Scalar.isFinite x = x.isFinite := rfl

variable {reduced pre}

theorem keepShorter_of_none {best : Displacement Float} (h : best.lengthSq = none) (o : Offset) :
    keepShorter reduced pre best o =
      if (imageDisplacement reduced pre o).normSq.isFinite = true then
        ⟨imageDisplacement reduced pre o, o, some (imageDisplacement reduced pre o).normSq⟩
      else best := by
  simp only [CrystalLattice.keepShorter, h, scalar_isFinite_float]
  rfl

theorem keepShorter_of_some {best : Displacement Float} {b : Float} (h : best.lengthSq = some b)
    (o : Offset) :
    keepShorter reduced pre best o =
      if (imageDisplacement reduced pre o).normSq < b then
        ⟨imageDisplacement reduced pre o, o, some (imageDisplacement reduced pre o).normSq⟩
      else best := by
  simp only [CrystalLattice.keepShorter, h, scalar_lt_float, decide_eq_true_eq]
  rfl

theorem kept_nil : KeptAmong reduced pre [] ⟨Vec3.zero, Offset.zero, none⟩ :=
  .inl ⟨rfl, fun _ h => absurd h List.not_mem_nil⟩

theorem KeptAmong.keepShorter {seen : List Offset} {best : Displacement Float}
    (h : KeptAmong reduced pre seen best) (o : Offset) :
    KeptAmong reduced pre (seen ++ [o]) (CrystalLattice.keepShorter reduced pre best o) := by
  have hsign := fun o => Vec3.hasPositiveSign_normSq (imageDisplacement reduced pre o)
  rcases h with ⟨rfl, hnone⟩ | ⟨b, hb, rfl, hfin, hmin⟩
  · -- nothing kept so far: the first candidate of finite squared length is taken
    by_cases hf : (imageDisplacement reduced pre o).normSq.isFinite = true
    · have hkeep : CrystalLattice.keepShorter reduced pre ⟨Vec3.zero, Offset.zero, none⟩ o =
          ⟨imageDisplacement reduced pre o, o, some (imageDisplacement reduced pre o).normSq⟩ := by
        rw [keepShorter_of_none rfl, if_pos hf]
      refine .inr ⟨o, by simp, hkeep, hf, fun o' ho' hlt => ?_⟩
      rcases List.mem_append.mp ho' with hs | hs
      · have hfin' := (hsign o').isFinite_of_lt hlt
        rw [hnone o' hs] at hfin'
        exact Bool.false_ne_true hfin'
      · rw [List.mem_singleton.mp hs] at hlt
        exact float_lt_irrefl _ hlt
    · have hkeep : CrystalLattice.keepShorter reduced pre ⟨Vec3.zero, Offset.zero, none⟩ o =
          ⟨Vec3.zero, Offset.zero, none⟩ := by
        rw [keepShorter_of_none rfl, if_neg hf]
      refine .inl ⟨hkeep, fun o' ho' => ?_⟩
      rcases List.mem_append.mp ho' with hs | hs
      · exact hnone o' hs
      · rw [List.mem_singleton.mp hs]
        exact Bool.eq_false_iff.mpr hf
  · -- the candidate of image `b` is kept so far
    by_cases hlt : (imageDisplacement reduced pre o).normSq < (imageDisplacement reduced pre b).normSq
    · have hkeep : CrystalLattice.keepShorter reduced pre
          ⟨imageDisplacement reduced pre b, b, some (imageDisplacement reduced pre b).normSq⟩ o =
          ⟨imageDisplacement reduced pre o, o, some (imageDisplacement reduced pre o).normSq⟩ := by
        rw [keepShorter_of_some rfl, if_pos hlt]
      refine .inr ⟨o, by simp, hkeep, (hsign o).isFinite_of_lt hlt, fun o' ho' hlt' => ?_⟩
      rcases List.mem_append.mp ho' with hs | hs
      · exact hmin o' hs ((hsign o').lt_trans (hsign o) (hsign b) hlt' hlt)
      · rw [List.mem_singleton.mp hs] at hlt'
        exact float_lt_irrefl _ hlt'
    · have hkeep : CrystalLattice.keepShorter reduced pre
          ⟨imageDisplacement reduced pre b, b, some (imageDisplacement reduced pre b).normSq⟩ o =
          ⟨imageDisplacement reduced pre b, b, some (imageDisplacement reduced pre b).normSq⟩ := by
        rw [keepShorter_of_some rfl, if_neg hlt]
      refine .inr ⟨b, List.mem_append_left _ hb, hkeep, hfin, fun o' ho' => ?_⟩
      rcases List.mem_append.mp ho' with hs | hs
      · exact hmin o' hs
      · rw [List.mem_singleton.mp hs]
        exact hlt

theorem KeptAmong.foldl {seen : List Offset} {best : Displacement Float}
    (h : KeptAmong reduced pre seen best) (l : List Offset) :
    KeptAmong reduced pre (seen ++ l) (l.foldl (CrystalLattice.keepShorter reduced pre) best) := by
  induction l generalizing seen best with
  | nil => simpa using h
  | cons o l ih => simpa using ih (h.keepShorter o)

end Search

section Swap

variable {reduced : Mat3 Float} {pre pre' : Vec3 Float}

theorem imageDisplacement_neg (hpre : pre'.EqUpToZeroSign (pre.map (- ·))) {o : Offset}
    (ho : o ∈ Offset.images) :
    (imageDisplacement reduced pre' o.neg).EqUpToZeroSign
      ((imageDisplacement reduced pre o).map (- ·)) :=
  hpre.add_neg ((Offset.toVec_neg ho).mulMat_neg reduced)

variable {r r' : Displacement Float}

/-- Two complete searches whose squared lengths correspond under `o ↦ -o` keep the same squared
length: the kept ones undercut each other nowhere, and finite squared lengths of positive sign
that are not below one another are the same float. -/
theorem KeptAmong.lengthSq_eq_of_neg (h : KeptAmong reduced pre Offset.images r)
    (h' : KeptAmong reduced pre' Offset.images r')
    (hkey : ∀ o ∈ Offset.images,
      (imageDisplacement reduced pre' o.neg).normSq = (imageDisplacement reduced pre o).normSq) :
    r'.lengthSq = r.lengthSq := by
  have hkey' : ∀ o ∈ Offset.images,
      (imageDisplacement reduced pre o.neg).normSq = (imageDisplacement reduced pre' o).normSq :=
    fun o ho => by simpa using (hkey o.neg (Offset.neg_mem_images ho)).symm
  rcases h with ⟨rfl, hnone⟩ | ⟨b, hb, rfl, hfin, hmin⟩ <;>
    rcases h' with ⟨rfl, hnone'⟩ | ⟨b', hb', rfl, hfin', hmin'⟩
  · rfl
  · -- the swapped search kept `b'`, so the first saw a finite squared length at `-b'`
    have hnan := hnone b'.neg (Offset.neg_mem_images hb')
    rw [hkey' b' hb', hfin'] at hnan
    simp at hnan
  · have hnan := hnone' b.neg (Offset.neg_mem_images hb)
    rw [hkey b hb, hfin] at hnan
    simp at hnan
  · apply congrArg some
    apply (Vec3.hasPositiveSign_normSq _).eq_of_not_lt (Vec3.hasPositiveSign_normSq _) hfin' hfin
    · have hlt := hmin b'.neg (Offset.neg_mem_images hb')
      rwa [hkey' b' hb'] at hlt
    · have hlt := hmin' b.neg (Offset.neg_mem_images hb)
      rwa [hkey b hb] at hlt

/-- When a single image reaches the kept squared length of the first search, the swapped
search keeps the opposite image and the opposite vector. -/
theorem KeptAmong.image_eq_neg (h : KeptAmong reduced pre Offset.images r)
    (h' : KeptAmong reduced pre' Offset.images r')
    (hpre : pre'.EqUpToZeroSign (pre.map (- ·)))
    (huniq : ∀ o ∈ Offset.images,
      some (imageDisplacement reduced pre o).normSq = r.lengthSq → o = r.image) :
    r'.image = r.image.neg ∧ r'.vector.EqUpToZeroSign (r.vector.map (- ·)) := by
  have hkey := fun o (ho : o ∈ Offset.images) =>
    (@imageDisplacement_neg reduced pre pre' hpre o ho).normSq_eq
  have hlen := h.lengthSq_eq_of_neg h' hkey
  rcases h with ⟨rfl, -⟩ | ⟨b, hb, rfl, -, -⟩ <;>
    rcases h' with ⟨rfl, -⟩ | ⟨b', hb', rfl, -, -⟩
  · exact ⟨rfl, eqUpToZeroSign_zero_neg, eqUpToZeroSign_zero_neg, eqUpToZeroSign_zero_neg⟩
  · exact absurd hlen (by simp)
  · exact absurd hlen (by simp)
  · -- the first search sees the kept squared length of the second at `-b'`, so `-b' = b`
    have hb'b : b'.neg = b := by
      apply huniq b'.neg (Offset.neg_mem_images hb')
      rw [← hlen, ← hkey b'.neg (Offset.neg_mem_images hb'), Offset.neg_neg]
    have hb' : b' = b.neg := by rw [← hb'b, Offset.neg_neg]
    subst hb'
    exact ⟨rfl, imageDisplacement_neg hpre hb⟩

end Swap

section MinimumImage

/-- The difference of the two points wrapped into the home cell, in the reduced frame: the
centre of the search of `minimumImage`. -/
def homeDisplacement (reduced inverse : Mat3 Float) (f₁ f₂ : Vec3 Float) : Vec3 Float :=
  ((wrap (f₂.mulMat inverse)).mulMat reduced).sub ((wrap (f₁.mulMat inverse)).mulMat reduced)

variable (reduced inverse : Mat3 Float) (f₁ f₂ : Vec3 Float)

theorem minimumImage_kept :
    KeptAmong reduced (homeDisplacement reduced inverse f₁ f₂) Offset.images
      (minimumImage reduced inverse f₁ f₂) := by
  have h := (@kept_nil reduced (homeDisplacement reduced inverse f₁ f₂)).foldl Offset.images
  rw [List.nil_append] at h
  exact h

theorem homeDisplacement_swap :
    (homeDisplacement reduced inverse f₂ f₁).EqUpToZeroSign
      ((homeDisplacement reduced inverse f₁ f₂).map (- ·)) :=
  Vec3.eqUpToZeroSign_sub_swap _ _

/-- Swapping the two points of a minimum-image search gives the same distance, bit for bit,
for any binary64 input; and when a single image reaches the shortest squared length, the
opposite image and the opposite vector, up to the signs of zero components. -/
theorem minimumImage_swap_symmetry :
    (minimumImage reduced inverse f₂ f₁).distance = (minimumImage reduced inverse f₁ f₂).distance ∧
    ((∀ o ∈ Offset.images,
        some (imageDisplacement reduced (homeDisplacement reduced inverse f₁ f₂) o).normSq =
          (minimumImage reduced inverse f₁ f₂).lengthSq →
        o = (minimumImage reduced inverse f₁ f₂).image) →
      (minimumImage reduced inverse f₂ f₁).image = (minimumImage reduced inverse f₁ f₂).image.neg ∧
      (minimumImage reduced inverse f₂ f₁).vector.EqUpToZeroSign
        ((minimumImage reduced inverse f₁ f₂).vector.map (- ·))) := by
  have hpre := homeDisplacement_swap reduced inverse f₁ f₂
  have h₁ := minimumImage_kept reduced inverse f₁ f₂
  have h₂ := minimumImage_kept reduced inverse f₂ f₁
  have hkey := fun o (ho : o ∈ Offset.images) =>
    (@imageDisplacement_neg reduced _ _ hpre o ho).normSq_eq
  refine ⟨?_, h₁.image_eq_neg h₂ hpre⟩
  simp only [Displacement.distance, h₁.lengthSq_eq_of_neg h₂ hkey]

/-- The points `0` and `(3/4, 0, 0)` of the unit cube: the image of the second nearest to the
first lies one cell back, and it alone is nearest; swapped, the image one cell forward is. -/
theorem unitCube_minimumImage_swap_symmetry :
    (∀ o ∈ Offset.images,
        some (imageDisplacement Mat3.identity
          (homeDisplacement Mat3.identity Mat3.identity Vec3.zero ⟨0.75, 0, 0⟩) o).normSq =
          (minimumImage Mat3.identity Mat3.identity Vec3.zero ⟨(0.75 : Float), 0, 0⟩).lengthSq →
        o = (minimumImage Mat3.identity Mat3.identity Vec3.zero ⟨(0.75 : Float), 0, 0⟩).image) ∧
    (minimumImage Mat3.identity Mat3.identity Vec3.zero ⟨(0.75 : Float), 0, 0⟩).image = ⟨-1, 0, 0⟩ ∧
    (minimumImage Mat3.identity Mat3.identity ⟨(0.75 : Float), 0, 0⟩ Vec3.zero).image =
      (minimumImage Mat3.identity Mat3.identity Vec3.zero ⟨(0.75 : Float), 0, 0⟩).image.neg := by
  have hunique : ∀ o ∈ Offset.images,
      some (imageDisplacement Mat3.identity
        (homeDisplacement Mat3.identity Mat3.identity Vec3.zero ⟨0.75, 0, 0⟩) o).normSq =
        (minimumImage Mat3.identity Mat3.identity Vec3.zero ⟨(0.75 : Float), 0, 0⟩).lengthSq →
      o = (minimumImage Mat3.identity Mat3.identity Vec3.zero ⟨(0.75 : Float), 0, 0⟩).image := by
    decide +kernel
  exact ⟨hunique, by decide +kernel,
    ((minimumImage_swap_symmetry Mat3.identity Mat3.identity Vec3.zero ⟨0.75, 0, 0⟩).2 hunique).1⟩

end MinimumImage

end Binary64

end CrystalLattice
