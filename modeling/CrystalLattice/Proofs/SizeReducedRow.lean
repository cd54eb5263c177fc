import Mathlib
import CrystalLattice.Proofs.Binary64IntegerParts
import CrystalLattice.Proofs.FixedPoints

/-!
# Size reduction of one vector in binary64

On a finite coefficient the test `|μ| ≤ 0.5` and the difference `μ - q` are exact, so one step of
size reduction leaves its coefficient within one half exactly when it was finite. The cross
update of `μ₂₀` can overflow, and then the vector is left with a NaN
(`sizeReduce_row_reduced_iff`).
-/

namespace CrystalLattice.Reduction.Progress

variable {α : Type} [Scalar α] {r i j : Fin 3}

theorem reduceAgainst_fst_eq (r i : Fin 3) (p : Progress α) (n : ℕ) :
    (reduceAgainst r (p, n) i).1 =
      if Scalar.le (Scalar.abs (p.gs.coeff.get r i)) 0.5 then p
      else p.subtractMultiple r i (Scalar.roundHalfEven (p.gs.coeff.get r i)) := by
  simp only [reduceAgainst]
  split_ifs <;> rfl

theorem subtractMultiple_coeff_get (p : Progress α) (r i : Fin 3) (q : α) (j : Fin 3) :
    (p.subtractMultiple r i q).gs.coeff.get r j =
      if j < i then p.gs.coeff.get r j - q * p.gs.coeff.get i j
      else if j = i then p.gs.coeff.get r j - q else p.gs.coeff.get r j := by
  simp only [subtractMultiple, Mat3.get_def, Mat3.row_setRow_self, Vec3.get_ofFn]

theorem reduceAgainst_coeff_get_of_lt (hij : i < j) (p : Progress α) (n : ℕ) :
    (reduceAgainst r (p, n) i).1.gs.coeff.get r j = p.gs.coeff.get r j := by
  rw [reduceAgainst_fst_eq]
  split_ifs
  · rfl
  · rw [subtractMultiple_coeff_get, if_neg (by omega), if_neg (by omega)]

theorem reduceAgainst_coeff_get_of_gt (hji : j < i) (p : Progress α) (n : ℕ) :
    (reduceAgainst r (p, n) i).1.gs.coeff.get r j =
      if Scalar.le (Scalar.abs (p.gs.coeff.get r i)) 0.5 then p.gs.coeff.get r j
      else p.gs.coeff.get r j - Scalar.roundHalfEven (p.gs.coeff.get r i) * p.gs.coeff.get i j := by
  rw [reduceAgainst_fst_eq]
  split_ifs
  · rfl
  · rw [subtractMultiple_coeff_get, if_pos hji]

theorem reduceAgainst_coeff_get_self (p : Progress α) (n : ℕ) :
    (reduceAgainst r (p, n) i).1.gs.coeff.get r i =
      if Scalar.le (Scalar.abs (p.gs.coeff.get r i)) 0.5 then p.gs.coeff.get r i
      else p.gs.coeff.get r i - Scalar.roundHalfEven (p.gs.coeff.get r i) := by
  rw [reduceAgainst_fst_eq]
  split_ifs
  · rfl
  · rw [subtractMultiple_coeff_get, if_neg (lt_irrefl i), if_pos rfl]

end CrystalLattice.Reduction.Progress

namespace CrystalLattice.Binary64

open Float.Model Float.Model.UnpackedFloat Reduction

section Test

variable {x y : Float}

theorem unpack_half :
    (0.5 : Float).toModel.unpack = .finite .positive (2 ^ 52) (-53) (by positivity) := by
  have hhalf : (0.5 : Float) =
      ofWord (Sign.positive.toBitVec.toNat * 2 ^ 63 + 1021 * 2 ^ 52 + 2 ^ 52) := by
    rw [← ofWord_word 0.5]
    rfl
  rw [hhalf, unpack_ofWord_normal .positive le_rfl (by norm_num) (by norm_num)]
  rfl

theorem unpack_abs_finite {s : Sign} {m : ℕ} {e : ℤ} {hm : 0 < m}
    (hu : x.toModel.unpack = .finite s m e hm) :
    (Float.abs x).toModel.unpack = .finite .positive m e hm := by
  rw [unpack_abs, hu]
  cases s
  · -- a negative float: its absolute value is its negation
    have hneg := unpack_pack_neg .binary64 (.finite .negative m e hm)
    rw [unpack_pack_of_unpack hu] at hneg
    exact hneg
  · exact unpack_pack_of_unpack hu

theorem abs_value (hx : x.isFinite = true) :
    (Float.abs x).isFinite = true ∧ value (Float.abs x) = |value x| := by
  have hx' : x.toModel.unpack.isFinite = true := hx
  rcases hu : x.toModel.unpack with s | _ | s | ⟨s, m, e, hm⟩ <;> rw [hu] at hx'
  · cases hx'
  · cases hx'
  · have hz : (Float.abs x).toModel.unpack = .zero .positive := by
      rw [unpack_abs, hu]
      exact unpack_pack_zero .positive
    rw [value_of_unpack_zero hz, value_of_unpack_zero hu, abs_zero]
    exact ⟨isFinite_of_unpack_zero hz, rfl⟩
  · have ha := unpack_abs_finite hu
    refine ⟨isFinite_of_unpack_finite ha, ?_⟩
    rw [value_of_unpack ha, value_of_unpack hu]
    cases s <;> simp only [Sign.apply, Int.cast_neg, Int.cast_natCast, neg_mul, abs_neg] <;>
      rw [abs_of_nonneg (by positivity)]

/-- On a finite float the test of size reduction is exact. -/
theorem abs_le_half_iff (hx : x.isFinite = true) : Float.abs x ≤ 0.5 ↔ |value x| ≤ 1 / 2 := by
  obtain ⟨ha, hav⟩ := abs_value hx
  obtain ⟨hh, hhv⟩ := value_half
  constructor
  · intro hle
    rw [← hav, ← hhv]
    exact value_le_of_le ha hh hle
  · intro hle
    exact le_of_value_le ha hh (by rw [hav]; exact abs_nonneg _) (by rw [hav, hhv]; exact hle)

theorem isFinite_sub_of_not_isFinite (hx : x.isFinite = false) (y : Float) :
    (x - y).isFinite = false := by
  have hx' : x.toModel.unpack.isFinite = false := hx
  change (x - y).toModel.unpack.isFinite = false
  rw [unpack_sub]
  rcases hu : x.toModel.unpack with s | _ | s | ⟨s, m, e, hm⟩ <;> rw [hu] at hx'
  · -- an infinity less anything is an infinity or a NaN
    rcases y.toModel.unpack with t | _ | t | ⟨t, n, f, hn⟩ <;> simp only [UnpackedFloat.sub]
    · split_ifs
      · rw [unpack_pack_infinity]
        rfl
      · rfl
    all_goals first | rfl | (rw [unpack_pack_infinity]; rfl)
  · -- a NaN less anything is a NaN
    change (UnpackedFloat.unpack .binary64 (packedNaN .binary64)).isFinite = false
    rw [unpack_packedNaN]
    rfl
  · cases hx'
  · cases hx'

/-- An infinite or NaN coefficient fails the test of size reduction. -/
theorem not_abs_le_half (hx : x.isFinite = false) : ¬Float.abs x ≤ 0.5 := by
  intro hle
  obtain ⟨hn, -⟩ := ne_notANumber_of_le hle
  have hx' : x.toModel.unpack.isFinite = false := hx
  have hinf : (Float.abs x).toModel.unpack = .infinity .positive := by
    rw [unpack_abs] at hn ⊢
    rcases hu : x.toModel.unpack with s | _ | s | ⟨s, m, e, hm⟩ <;> rw [hu] at hx' hn
    · exact unpack_pack_infinity .positive
    · exact absurd rfl hn
    · cases hx'
    · cases hx'
  rw [le_iff_unpack_le, hinf, unpack_half] at hle
  exact absurd hle (by decide)

end Test

section Step

/-- A coefficient that size reduction leaves exactly reduced: finite and at most one half in
magnitude. -/
def WithinHalf (x : Float) : Prop := x.isFinite = true ∧ |value x| ≤ 1 / 2

/-- One step of size reduction leaves its coefficient within one half exactly when that
coefficient was finite. -/
theorem reduceAgainst_coeff_self_iff (p : Progress Float) (n : ℕ) (r i : Fin 3) :
    WithinHalf ((Progress.reduceAgainst r (p, n) i).1.gs.coeff.get r i) ↔
      (p.gs.coeff.get r i).isFinite = true := by
  rw [Progress.reduceAgainst_coeff_get_self, scalar_le_float, scalar_abs_float]
  by_cases hfin : (p.gs.coeff.get r i).isFinite = true
  · simp only [hfin, iff_true]
    split_ifs with hle
    · exact ⟨hfin, (abs_le_half_iff hfin).mp (of_decide_eq_true hle)⟩
    · exact sub_roundHalfEven_value hfin
  · have hnf : (p.gs.coeff.get r i).isFinite = false := by simpa using hfin
    rw [if_neg fun h => not_abs_le_half hnf (of_decide_eq_true h)]
    simp only [WithinHalf, isFinite_sub_of_not_isFinite hnf, hnf]
    simp

/-- Every cross update of the loop on vector `r` is finite: against each vector `i` whose
coefficient fails the test, `μᵣⱼ - q μᵢⱼ` is finite for every `j < i`, with `q` the nearest
integer to `μᵣᵢ`. -/
def CrossUpdatesFinite (p : Progress Float) (r : Fin 3) : Prop :=
  ∀ i j : Fin 3, j < i → i < r → ¬Float.abs (p.gs.coeff.get r i) ≤ 0.5 →
    (p.gs.coeff.get r j - roundHalfEven (p.gs.coeff.get r i) * p.gs.coeff.get i j).isFinite = true

/-- Size reduction leaves vector `r` reduced in binary64, every coefficient `μᵣⱼ` with `j < r`
finite and at most one half, exactly when no cross update of the loop overflows. -/
theorem sizeReduce_row_reduced_iff (p : Progress Float) (r : Fin 3)
    (hfin : ∀ j, j < r → (p.gs.coeff.get r j).isFinite = true) :
    (∀ j, j < r → WithinHalf ((p.sizeReduce r).1.gs.coeff.get r j)) ↔ CrossUpdatesFinite p r := by
  fin_cases r
  · -- nothing below the first vector
    exact ⟨fun _ i j _ hi => absurd hi (by simp), fun _ j hj => absurd hj (by simp)⟩
  · -- the second vector is reduced against the first alone, with no cross update
    refine ⟨fun _ i j hji hi => absurd hji (by fin_cases i <;> fin_cases j <;> simp_all), ?_⟩
    intro _ j hj
    obtain rfl : j = 0 := by fin_cases j <;> simp_all
    exact (reduceAgainst_coeff_self_iff p 0 1 0).mpr (hfin 0 (by decide))
  · -- the third vector is reduced against the second and then against the first
    set p₁ := (Progress.reduceAgainst 2 (p, 0) 1).1 with hp₁
    have hsize : (p.sizeReduce 2).1 = (Progress.reduceAgainst 2 (p₁, _) 0).1 := rfl
    have h₁ : WithinHalf ((p.sizeReduce 2).1.gs.coeff.get 2 1) := by
      rw [hsize, Progress.reduceAgainst_coeff_get_of_lt (by decide)]
      exact (reduceAgainst_coeff_self_iff p 0 2 1).mpr (hfin 1 (by decide))
    have h₀ : WithinHalf ((p.sizeReduce 2).1.gs.coeff.get 2 0) ↔
        (p₁.gs.coeff.get 2 0).isFinite = true := by
      rw [hsize]
      exact reduceAgainst_coeff_self_iff _ _ 2 0
    have hcross : (p₁.gs.coeff.get 2 0).isFinite = true ↔ CrossUpdatesFinite p 2 := by
      rw [hp₁, Progress.reduceAgainst_coeff_get_of_gt (by decide), scalar_le_float,
        scalar_abs_float]
      constructor
      · intro h i j hji hi hnot
        obtain ⟨rfl, rfl⟩ : i = 1 ∧ j = 0 := by
          fin_cases i <;> fin_cases j <;> simp_all
        rwa [if_neg fun h' => hnot (of_decide_eq_true h')] at h
      · intro h
        split_ifs with hle
        · exact hfin 0 (by decide)
        · exact h 1 0 (by decide) (by decide) fun h' => hle (decide_eq_true h')
    constructor
    · intro h
      exact hcross.mp (h₀.mp (h 0 (by decide)))
    · intro h j hj
      fin_cases j
      · exact h₀.mpr (hcross.mpr h)
      · exact h₁
      · exact absurd hj (by decide)

/-- A state whose third vector needs two reductions, the first with a cross update. -/
theorem shearedRow_sizeReduce_row_reduced :
    let p : Progress Float :=
      ⟨⟨⟨1, 0, 0⟩, ⟨0.5, 1, 0⟩, ⟨2.7, 1.6, 1⟩⟩, Mat3.identity,
        ⟨Mat3.identity, ⟨1, 1, 1⟩, ⟨⟨0, 0, 0⟩, ⟨0.5, 0, 0⟩, ⟨2.7, 1.6, 0⟩⟩⟩, 3, 1, 0⟩
    (∀ j, j < 2 → (p.gs.coeff.get 2 j).isFinite = true) ∧ CrossUpdatesFinite p 2 ∧
      ∀ j, j < 2 → WithinHalf ((p.sizeReduce 2).1.gs.coeff.get 2 j) := by
  intro p
  have hfin : ∀ j, j < 2 → (p.gs.coeff.get 2 j).isFinite = true := by decide
  have hcross : CrossUpdatesFinite p 2 := by
    unfold CrossUpdatesFinite
    decide
  exact ⟨hfin, hcross, (sizeReduce_row_reduced_iff p 2 hfin).mpr hcross⟩

set_option maxRecDepth 20000 in
/-- Finite coefficients do not make the loop leave a vector reduced: the cross update
`-1.5e308 - 1.5e308 · 0.5` overflows, and the next reduction takes `-∞ - (-∞)`. -/
theorem overflowingRow_sizeReduce_leaves_nan :
    let p : Progress Float :=
      ⟨⟨⟨1, 0, 0⟩, ⟨0.5, 1, 0⟩, ⟨-1.5e308, 1.5e308, 1⟩⟩, Mat3.identity,
        ⟨Mat3.identity, ⟨1, 1, 1⟩, ⟨⟨0, 0, 0⟩, ⟨0.5, 0, 0⟩, ⟨-1.5e308, 1.5e308, 0⟩⟩⟩, 3, 1, 0⟩
    (∀ i j, (p.gs.coeff.get i j).isFinite = true) ∧
      ((Progress.reduceAgainst 2 (p, 0) 1).1.gs.coeff.get 2 0).isInf = true ∧
      ((p.sizeReduce 2).1.gs.coeff.get 2 0).isNaN = true := by
  decide

end Step

end CrystalLattice.Binary64
