import CrystalLattice.Proofs.MinimumImageSymmetry
import CrystalLattice.Proofs.Binary64Order
import CrystalLattice.Proofs.Binary64Scaling

/-!
# What the minimum-image search returns in binary64

The search keeps the first of the shortest candidates (`KeptFirst`). Once one candidate is
finite no candidate is a NaN, so the kept one is at most every candidate
(`minimumImage_first_shortest`); when none is finite it keeps nothing, at distance `+∞`.
-/

namespace CrystalLattice.Binary64

open Float.Model Float.Model.UnpackedFloat

section Finiteness

theorem isFinite_of_unpack_pack {u : UnpackedFloat}
    (h : (unpack .binary64 (pack .binary64 u)).isFinite = true) : u.isFinite = true := by
  cases u with
  | notANumber => exact absurd h (by decide)
  | infinity s =>
    simp [UnpackedFloat.pack, packedInfinity, UnpackedFloat.unpack, UnpackedFloat.isFinite] at h
  | zero s => rfl
  | finite s m e hm => rfl

theorem isFinite_of_add_isFinite {a b : UnpackedFloat} (h : (add .binary64 a b).isFinite = true) :
    a.isFinite = true ∧ b.isFinite = true := by
  rcases a with s | _ | s | ⟨s, m, e, hm⟩ <;> rcases b with t | _ | t | ⟨t, n, f, hn⟩ <;>
    simp only [UnpackedFloat.add] at h <;> (try split_ifs at h) <;>
    simp_all [UnpackedFloat.isFinite]

theorem isFinite_of_mul_isFinite {a b : UnpackedFloat} (h : (mul .binary64 a b).isFinite = true) :
    a.isFinite = true ∧ b.isFinite = true := by
  rcases a with s | _ | s | ⟨s, m, e, hm⟩ <;> rcases b with t | _ | t | ⟨t, n, f, hn⟩ <;>
    simp_all [UnpackedFloat.mul, UnpackedFloat.isFinite]

theorem mul_comm (spec : Format) (a b : UnpackedFloat) : mul spec a b = mul spec b a := by
  rcases a with s | _ | s | ⟨s, m, e, hm⟩ <;> rcases b with t | _ | t | ⟨t, n, f, hn⟩ <;>
    (try cases s) <;> (try cases t) <;> simp [UnpackedFloat.mul, Nat.mul_comm, Int.add_comm] <;> rfl

variable {x y : Float}

theorem isFinite_unpack (x : Float) : x.isFinite = x.toModel.unpack.isFinite := rfl

theorem isFinite_of_add (h : (x + y).isFinite = true) : x.isFinite = true ∧ y.isFinite = true := by
  rw [isFinite_unpack, unpack_add] at h
  exact isFinite_of_add_isFinite (isFinite_of_unpack_pack h)

theorem isFinite_of_mul (h : (x * y).isFinite = true) : x.isFinite = true ∧ y.isFinite = true := by
  rw [isFinite_unpack, unpack_mul] at h
  exact isFinite_of_mul_isFinite (isFinite_of_unpack_pack h)

theorem unpack_add_ne_notANumber (hx : x.isFinite = true) (hy : y.toModel.unpack ≠ .notANumber) :
    (x + y).toModel.unpack ≠ .notANumber := by
  rw [unpack_add]
  apply unpack_pack_ne_notANumber
  rw [isFinite_unpack] at hx
  rcases hu : x.toModel.unpack with s | _ | s | ⟨s, m, e, hm⟩ <;> rw [hu] at hx <;>
    simp [UnpackedFloat.isFinite] at hx <;>
    rcases hv : y.toModel.unpack with t | _ | t | ⟨t, n, f, hn⟩ <;> rw [hv] at hy <;>
    simp at hy <;> simp only [UnpackedFloat.add]
  all_goals first
    | exact normalize_ne_notANumber _ _ _
    | (split_ifs <;> simp)
    | simp

theorem unpack_add_ne_notANumber_left (hx : x.toModel.unpack ≠ .notANumber)
    (hy : y.isFinite = true) : (x + y).toModel.unpack ≠ .notANumber := by
  rw [unpack_add, Binary64.add_comm, ← unpack_add]
  exact unpack_add_ne_notANumber hy hx

theorem unpack_mul_self_ne_notANumber (hx : x.toModel.unpack ≠ .notANumber) :
    (x * x).toModel.unpack ≠ .notANumber := by
  rw [unpack_mul]
  apply unpack_pack_ne_notANumber
  rcases hu : x.toModel.unpack with s | _ | s | ⟨s, m, e, hm⟩ <;> rw [hu] at hx <;>
    simp only [UnpackedFloat.mul] <;> simp at hx
  all_goals first
    | exact roundWithAccuracy_ne_notANumber _ _ _ _
    | simp

theorem HasPositiveSign.unpack_add_ne_notANumber (hx : HasPositiveSign x)
    (hy : HasPositiveSign y) (hx' : x.toModel.unpack ≠ .notANumber)
    (hy' : y.toModel.unpack ≠ .notANumber) : (x + y).toModel.unpack ≠ .notANumber := by
  rw [unpack_add]
  apply unpack_pack_ne_notANumber
  unfold HasPositiveSign at hx hy
  rcases hu : x.toModel.unpack with s | _ | s | ⟨s, m, e, hm⟩ <;> rw [hu] at hx hx' <;>
    rcases hv : y.toModel.unpack with t | _ | t | ⟨t, n, f, hn⟩ <;> rw [hv] at hy hy' <;>
    simp only [HasSign] at hx hy <;> (try subst hx) <;> (try subst hy) <;>
    simp only [UnpackedFloat.add] <;> simp at hx' hy'
  all_goals first
    | exact normalize_ne_notANumber _ _ _
    | simp

/-- Multiplying by `-1`, `0` or `1` keeps a float finite: the product is the float, its
negation or a zero. -/
theorem isFinite_ofInt_mul {n : ℤ} (hn : |n| ≤ 1) (hy : y.isFinite = true) :
    (Float.ofInt n * y).isFinite = true := by
  have hone : (1 * y).toModel.unpack = y.toModel.unpack := by
    rw [unpack_mul, mul_comm, ← unpack_mul, unpack_mul_one]
  obtain rfl | rfl | rfl : n = -1 ∨ n = 0 ∨ n = 1 := by
    rcases abs_le.mp hn with ⟨h₁, h₂⟩
    omega
  · rw [show Float.ofInt (-1) = -1 by decide, isFinite_unpack, unpack_mul, unpack_neg,
      mul_neg_left, unpack_pack_neg, ← unpack_mul, hone]
    rw [isFinite_unpack] at hy
    revert hy
    cases y.toModel.unpack <;> simp [UnpackedFloat.neg, UnpackedFloat.isFinite]
  · rw [show Float.ofInt 0 = 0 by decide, isFinite_unpack, unpack_mul, unpack_zero]
    rw [isFinite_unpack] at hy
    cases hu : y.toModel.unpack with
    | zero s => cases s <;> decide
    | finite s m e hm =>
      simp only [UnpackedFloat.mul]
      cases s <;> decide
    | _ => simp [hu, UnpackedFloat.isFinite] at hy
  · rw [show Float.ofInt 1 = 1 by decide, isFinite_unpack, hone]
    exact hy

/-- On numbers of positive sign the IEEE order is total: a number that is neither below
another nor equal to it is above it. -/
theorem HasPositiveSign.lt_of_not_lt_of_ne (hx : HasPositiveSign x) (hy : HasPositiveSign y)
    (hx' : x.toModel.unpack ≠ .notANumber) (hy' : y.toModel.unpack ≠ .notANumber)
    (h : ¬y < x) (hne : y ≠ x) : x < y := by
  rw [lt_iff_unpack_lt, lt_iff_orderKey_lt hy hx hy' hx'] at h
  rw [lt_iff_unpack_lt, lt_iff_orderKey_lt hx hy hx' hy']
  rcases (not_lt.mp h).lt_or_eq with hlt | heq
  · exact hlt
  · exact absurd (eq_of_unpack_eq (orderKey_inj hy hx heq.symm)) hne

end Finiteness

namespace Vec3

variable {v : Vec3 Float}

theorem isFinite_get_of_normSq (h : v.normSq.isFinite = true) (j : Fin 3) :
    (v.get j).isFinite = true := by
  have h' : (v.x * v.x + v.y * v.y + v.z * v.z).isFinite = true := h
  obtain ⟨hxy, hz⟩ := isFinite_of_add h'
  obtain ⟨hx, hy⟩ := isFinite_of_add hxy
  fin_cases j
  · exact (isFinite_of_mul hx).1
  · exact (isFinite_of_mul hy).1
  · exact (isFinite_of_mul hz).1

/-- The squared length of a vector of numbers is a number: the squares have the positive sign,
so their sum never meets `∞ - ∞`. -/
theorem normSq_ne_notANumber (h : ∀ j, (v.get j).toModel.unpack ≠ .notANumber) :
    v.normSq.toModel.unpack ≠ .notANumber := by
  change (v.x * v.x + v.y * v.y + v.z * v.z).toModel.unpack ≠ _
  have hsq := fun j => unpack_mul_self_ne_notANumber (h j)
  exact ((hasPositiveSign_mul_self _).add (hasPositiveSign_mul_self _)).unpack_add_ne_notANumber
    (hasPositiveSign_mul_self _)
    ((hasPositiveSign_mul_self _).unpack_add_ne_notANumber (hasPositiveSign_mul_self _)
      (hsq 0) (hsq 1)) (hsq 2)

end Vec3

section Candidates

variable {reduced : Mat3 Float} {pre : Vec3 Float}

theorem offset_mulMat_get (o : Offset) (m : Mat3 Float) (j : Fin 3) :
    ((o.toVec : Vec3 Float).mulMat m).get j =
      Scalar.zero + Float.ofInt o.i * m.get 0 j + Float.ofInt o.j * m.get 1 j +
        Float.ofInt o.k * m.get 2 j := by
  fin_cases j <;> rfl

theorem imageDisplacement_get (o : Offset) (j : Fin 3) :
    (imageDisplacement reduced pre o).get j = pre.get j + ((o.toVec : Vec3 Float).mulMat reduced).get j := by
  fin_cases j <;> rfl

/-- An offset meets column `j` in a finite component only where the whole column is finite:
each row enters the sum through a product, and a finite product has finite factors. -/
theorem isFinite_column_of_mulMat {o : Offset} {m : Mat3 Float} {j : Fin 3}
    (h : (((o.toVec : Vec3 Float).mulMat m).get j).isFinite = true) (i : Fin 3) :
    (m.get i j).isFinite = true := by
  rw [offset_mulMat_get] at h
  obtain ⟨h₀₁, h₂⟩ := isFinite_of_add h
  obtain ⟨h₀, h₁⟩ := isFinite_of_add h₀₁
  obtain ⟨-, h₀⟩ := isFinite_of_add h₀
  fin_cases i
  · exact (isFinite_of_mul h₀).2
  · exact (isFinite_of_mul h₁).2
  · exact (isFinite_of_mul h₂).2

/-- A listed offset takes a finite column to a number: the products are exact up to sign, and
a sum of finite terms overflows to an infinity at worst. -/
theorem offset_mulMat_ne_notANumber {o : Offset} (ho : o ∈ Offset.images) {m : Mat3 Float}
    {j : Fin 3} (hm : ∀ i, (m.get i j).isFinite = true) :
    (((o.toVec : Vec3 Float).mulMat m).get j).toModel.unpack ≠ .notANumber := by
  obtain ⟨hi, hj, hk⟩ := Offset.abs_le_one_of_mem_images ho
  rw [offset_mulMat_get]
  exact unpack_add_ne_notANumber_left (unpack_add_ne_notANumber_left
    (unpack_add_ne_notANumber_left (by rw [show (Scalar.zero : Float) = 0 from rfl, unpack_zero]; simp)
      (isFinite_ofInt_mul hi (hm 0)))
    (isFinite_ofInt_mul hj (hm 1))) (isFinite_ofInt_mul hk (hm 2))

theorem imageDisplacement_normSq_ne_notANumber {o o' : Offset} (ho' : o' ∈ Offset.images)
    (h : (imageDisplacement reduced pre o).normSq.isFinite = true) :
    (imageDisplacement reduced pre o').normSq.toModel.unpack ≠ .notANumber := by
  have hc : ∀ j, (pre.get j).isFinite = true ∧ ∀ i, (reduced.get i j).isFinite = true := by
    intro j
    have hj := Vec3.isFinite_get_of_normSq h j
    rw [imageDisplacement_get] at hj
    obtain ⟨hp, hm⟩ := isFinite_of_add hj
    exact ⟨hp, isFinite_column_of_mulMat hm⟩
  apply Vec3.normSq_ne_notANumber
  intro j
  rw [imageDisplacement_get]
  exact unpack_add_ne_notANumber (hc j).1 (offset_mulMat_ne_notANumber ho' (hc j).2)

end Candidates

section Search

variable (reduced : Mat3 Float) (pre : Vec3 Float)

/-- The kept candidate comes first among those of its squared length: every candidate seen
before it is neither shorter nor of the same squared length. -/
def KeptFirst (seen : List Offset) (best : Displacement Float) : Prop :=
  best.lengthSq = none ∨ ∃ l₁ l₂, seen = l₁ ++ best.image :: l₂ ∧
    ∀ o ∈ l₁, ¬(imageDisplacement reduced pre o).normSq <
        (imageDisplacement reduced pre best.image).normSq ∧
      (imageDisplacement reduced pre o).normSq ≠ (imageDisplacement reduced pre best.image).normSq

variable {reduced pre}

/-- One step of the search keeps `KeptFirst`: a new candidate is kept only when it undercuts
the kept one, which undercuts or matches nothing seen, so by transitivity the new one does
not either. -/
theorem KeptFirst.keepShorter {seen : List Offset} {best : Displacement Float}
    (hk : KeptAmong reduced pre seen best) (h : KeptFirst reduced pre seen best) (o : Offset) :
    KeptFirst reduced pre (seen ++ [o]) (CrystalLattice.keepShorter reduced pre best o) := by
  have hsign := fun o => Vec3.hasPositiveSign_normSq (imageDisplacement reduced pre o)
  rcases hk with ⟨rfl, hnone⟩ | ⟨b, hb, rfl, -, hmin⟩
  · -- nothing kept so far: a finite candidate is taken, and all those seen are not finite
    by_cases hf : (imageDisplacement reduced pre o).normSq.isFinite = true
    · rw [keepShorter_of_none rfl, if_pos hf]
      refine .inr ⟨seen, [], rfl, fun o' ho' => ⟨fun hlt => ?_, fun heq => ?_⟩⟩
      · have hfin' := (hsign o').isFinite_of_lt hlt
        rw [hnone o' ho'] at hfin'
        exact Bool.false_ne_true hfin'
      · have hnan := hnone o' ho'
        rw [heq, hf] at hnan
        cases hnan
    · rw [keepShorter_of_none rfl, if_neg hf]
      exact .inl rfl
  · rcases h with hnone | ⟨l₁, l₂, hseen, hbefore⟩
    · cases hnone
    by_cases hlt : (imageDisplacement reduced pre o).normSq <
        (imageDisplacement reduced pre b).normSq
    · -- the new candidate undercuts `b`, and `b` undercuts nothing seen
      rw [keepShorter_of_some rfl, if_pos hlt]
      refine .inr ⟨seen, [], rfl, fun o' ho' => ⟨fun hlt' => ?_, fun heq => ?_⟩⟩
      · exact hmin o' ho' ((hsign o').lt_trans (hsign o) (hsign b) hlt' hlt)
      · exact hmin o' ho' (by rw [heq]; exact hlt)
    · rw [keepShorter_of_some rfl, if_neg hlt]
      exact .inr ⟨l₁, l₂ ++ [o], by simp [hseen], hbefore⟩

theorem KeptFirst.foldl {seen : List Offset} {best : Displacement Float}
    (hk : KeptAmong reduced pre seen best) (h : KeptFirst reduced pre seen best) (l : List Offset) :
    KeptFirst reduced pre (seen ++ l) (l.foldl (CrystalLattice.keepShorter reduced pre) best) := by
  induction l generalizing seen best with
  | nil => simpa using h
  | cons o l ih => simpa using ih (hk.keepShorter o) (h.keepShorter hk o)

end Search

section MinimumImage

variable (reduced inverse : Mat3 Float) (f₁ f₂ : Vec3 Float)

theorem minimumImage_keptFirst :
    KeptFirst reduced (homeDisplacement reduced inverse f₁ f₂) Offset.images
      (minimumImage reduced inverse f₁ f₂) := by
  have h := KeptFirst.foldl (@kept_nil reduced (homeDisplacement reduced inverse f₁ f₂))
    (.inl rfl) Offset.images
  rw [List.nil_append] at h
  exact h

/-- The candidate of image `o` in the search from `f₁` to `f₂`: the difference of the wrapped
points in the reduced frame, moved by `o`. -/
def candidate (o : Offset) : Vec3 Float :=
  imageDisplacement reduced (homeDisplacement reduced inverse f₁ f₂) o

/-- The search returns the first candidate of least, finite squared length, or, when no
candidate is finite, the zero vector with the zero offset at distance `+∞`. -/
theorem minimumImage_first_shortest :
    (∃ o ∈ Offset.images, ∃ l₁ l₂, Offset.images = l₁ ++ o :: l₂ ∧
        minimumImage reduced inverse f₁ f₂ =
          ⟨candidate reduced inverse f₁ f₂ o, o,
            some (candidate reduced inverse f₁ f₂ o).normSq⟩ ∧
        (candidate reduced inverse f₁ f₂ o).normSq.isFinite = true ∧
        (minimumImage reduced inverse f₁ f₂).distance =
          (candidate reduced inverse f₁ f₂ o).normSq.sqrt ∧
        (∀ o' ∈ Offset.images,
          (candidate reduced inverse f₁ f₂ o).normSq ≤ (candidate reduced inverse f₁ f₂ o').normSq) ∧
        ∀ o' ∈ l₁,
          (candidate reduced inverse f₁ f₂ o).normSq < (candidate reduced inverse f₁ f₂ o').normSq) ∨
      ((∀ o ∈ Offset.images, (candidate reduced inverse f₁ f₂ o).normSq.isFinite = false) ∧
        minimumImage reduced inverse f₁ f₂ = ⟨Vec3.zero, Offset.zero, none⟩ ∧
        (minimumImage reduced inverse f₁ f₂).distance = 1 / 0) := by
  have hsign := fun o => Vec3.hasPositiveSign_normSq (candidate reduced inverse f₁ f₂ o)
  rcases minimumImage_kept reduced inverse f₁ f₂ with ⟨hr, hnone⟩ | ⟨b, hb, hr, hfin, hmin⟩
  · exact .inr ⟨hnone, hr, by rw [hr]; rfl⟩
  have hnum : ∀ o ∈ Offset.images,
      (candidate reduced inverse f₁ f₂ o).normSq.toModel.unpack ≠ .notANumber :=
    fun o ho => imageDisplacement_normSq_ne_notANumber ho hfin
  rcases minimumImage_keptFirst reduced inverse f₁ f₂ with hlen | ⟨l₁, l₂, himages, hbefore⟩
  · rw [hr] at hlen
    cases hlen
  rw [hr] at himages hbefore
  refine .inl ⟨b, hb, l₁, l₂, himages, hr, hfin, by rw [hr]; rfl,
    fun o ho => le_of_not_lt (hnum o ho) (hnum b hb) (hmin o ho), fun o ho => ?_⟩
  have ho' : o ∈ Offset.images := himages ▸ List.mem_append_left _ ho
  exact (hsign b).lt_of_not_lt_of_ne (hsign o) (hnum b hb) (hnum o ho') (hbefore o ho).1
    (hbefore o ho).2

deriving instance DecidableEq for Displacement

set_option maxRecDepth 4000 in
/-- Along a basis vector `10²⁰⁰` long every candidate's square overflows, and the search keeps
nothing. -/
theorem overflowingCell_minimumImage_keeps_nothing :
    minimumImage (⟨⟨1e200, 0, 0⟩, ⟨0, 1, 0⟩, ⟨0, 0, 1⟩⟩ : Mat3 Float) Mat3.identity Vec3.zero
        ⟨0.5, 0, 0⟩ = ⟨Vec3.zero, Offset.zero, none⟩ ∧
      (minimumImage (⟨⟨1e200, 0, 0⟩, ⟨0, 1, 0⟩, ⟨0, 0, 1⟩⟩ : Mat3 Float) Mat3.identity Vec3.zero
          ⟨0.5, 0, 0⟩).distance = 1 / 0 ∧
      (minimumImage (⟨⟨1e200, 0, 0⟩, ⟨0, 1, 0⟩, ⟨0, 0, 1⟩⟩ : Mat3 Float) Mat3.identity Vec3.zero
          ⟨0.5, 0, 0⟩).distance ≠ (Vec3.zero : Vec3 Float).normSq.sqrt ∧
      ∀ o ∈ Offset.images,
        candidate (⟨⟨1e200, 0, 0⟩, ⟨0, 1, 0⟩, ⟨0, 0, 1⟩⟩ : Mat3 Float) Mat3.identity Vec3.zero
          ⟨0.5, 0, 0⟩ o ≠ Vec3.zero := by
  decide

end MinimumImage

end CrystalLattice.Binary64
