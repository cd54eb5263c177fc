import Mathlib
import CrystalLattice.Proofs.Binary64Division

/-!
# The error of one binary64 operation

A sum, difference, product or quotient of finite floats whose exact value is at most `2 ^ 1023`
in size is finite and lies within `2⁻⁵³` of that value, relative, plus half the least subnormal
(`Rounds`). The bound is that of rounding a positive value at its rounding exponent
(`RoundsFrom.rounds`); negative operands follow by the symmetry of rounding under negation.
-/

namespace CrystalLattice.Binary64

open Float.Model Float.Model.UnpackedFloat

/-- The real number a float stands for. -/
def real (x : Float) : ℝ := value x

/-- Half the least subnormal: the error of a rounding near zero. -/
noncomputable def underflow : ℝ := 1 / 2 ^ 1075

theorem underflow_nonneg : 0 ≤ underflow := by
  unfold underflow
  positivity

/-- `x` is a finite float within one rounding of `v`. -/
structure Rounds (x : Float) (v : ℝ) : Prop where
  isFinite : x.isFinite = true
  abs_sub_le : |real x - v| ≤ |v| / 2 ^ 53 + underflow

variable {x y : Float}

section Positive

variable {v : ℚ}

theorem abs_nearestEven_sub_le {r : ℚ} (hr : 0 ≤ r) : |(nearestEven r : ℚ) - r| ≤ 1 / 2 := by
  have h := abs_sub_ratRoundHalfEven_le r
  rwa [ratRoundHalfEven_of_nonneg hr, Int.cast_natCast, abs_sub_comm] at h

/-- A positive value of at most `2 ^ 1023` packs to the finite float of its rounded mantissa at
its rounding exponent. -/
theorem value_pack_roundPositive (hv : 0 < v) (hv' : v ≤ 2 ^ 1023)
    (hx : x.toModel.unpack = (Float.Model.pack (roundPositive v)).unpack) :
    x.isFinite = true ∧
      value x = nearestEven (v / 2 ^ roundingExponent v) * 2 ^ roundingExponent v := by
  have hlog : Int.log 2 v < 1024 := by
    refine (Int.lt_zpow_iff_log_lt (show 1 < 2 by norm_num) hv).mp ?_
    rw [Nat.cast_ofNat, show (1024 : ℤ) = ((1024 : ℕ) : ℤ) from rfl, zpow_natCast]
    exact hv'.trans_lt (pow_lt_pow_right₀ (by norm_num) (by norm_num))
  have hE : roundingExponent v = max (Int.log 2 v + 1 - 53) (-1074) := rfl
  have hshape := roundPositive_shape hv
  have hN53 := nearestEven_le_two_pow v
  have hround := abs_nearestEven_sub_le (r := v / 2 ^ roundingExponent v) (by positivity)
  generalize hN : nearestEven (v / 2 ^ roundingExponent v) = N at hshape hN53 hround
  unfold roundPositive ofRounded at hx
  rw [hN] at hx
  generalize roundingExponent v = E at hE hshape hround hx ⊢
  split_ifs at hx with h0 h53
  · subst h0
    rw [unpack_pack_zero] at hx
    exact ⟨isFinite_of_unpack_zero hx, by rw [value_of_unpack_zero hx]; simp⟩
  · have hpos : 0 < N := Nat.pos_of_ne_zero h0
    by_cases hsub : N < 2 ^ 52
    · obtain rfl : E = -1074 := hshape.resolve_right (by omega)
      rw [unpack_pack_subnormal _ hpos hsub] at hx
      exact ⟨isFinite_of_unpack_finite hx, by simp [value_of_unpack hx, Sign.apply]⟩
    · have hl : N.log2 = 52 := (Nat.log2_eq_iff h0).mpr ⟨by omega, h53⟩
      rw [unpack_pack_normal _ hpos hl (by omega) (by omega)] at hx
      exact ⟨isFinite_of_unpack_finite hx, by simp [value_of_unpack hx, Sign.apply]⟩
  · -- a carry out of 53 bits moves to the next exponent, which stays below the largest
    obtain rfl : N = 2 ^ 53 := by omega
    have hE' : E ≤ 970 := by
      by_contra hgt
      obtain rfl : E = 971 := by omega
      have hlow : (2 : ℚ) ^ 53 - 1 / 2 ≤ v / 2 ^ (971 : ℤ) := by
        have := (abs_le.mp hround).2
        push_cast at this
        linarith
      rw [le_div_iff₀ (by positivity), show (971 : ℤ) = ((971 : ℕ) : ℤ) from rfl,
        zpow_natCast] at hlow
      have hcmp : (2 : ℚ) ^ 1023 < (2 ^ 53 - 1 / 2) * 2 ^ 971 := by
        rw [show (2 : ℚ) ^ 1023 = 2 ^ 52 * 2 ^ 971 by rw [← pow_add]]
        have : (0 : ℚ) < 2 ^ 971 := by positivity
        exact mul_lt_mul_of_pos_right (by norm_num) this
      exact lt_irrefl _ (hcmp.trans_le (hlow.trans hv'))
    rw [unpack_pack_normal _ (by norm_num) Nat.log2_two_pow (by omega) (by omega)] at hx
    refine ⟨isFinite_of_unpack_finite hx, ?_⟩
    rw [value_of_unpack hx, zpow_add_one₀ two_ne_zero]
    simp only [Sign.apply]
    push_cast
    ring

/-- The rounding of a value of at most `2 ^ 1023` is finite and within one rounding of it. -/
theorem RoundsFrom.rounds (h : RoundsFrom x v) (hv : v ≤ 2 ^ 1023) : Rounds x v := by
  rcases h with ⟨rfl, s, hu⟩ | ⟨hpos, hu⟩
  · refine ⟨isFinite_of_unpack_zero hu, ?_⟩
    simp only [real, value_of_unpack_zero hu, Rat.cast_zero, sub_zero, abs_zero, zero_div,
      zero_add]
    exact underflow_nonneg
  obtain ⟨hfin, hval⟩ := value_pack_roundPositive hpos hv hu
  refine ⟨hfin, ?_⟩
  set E := roundingExponent v
  have hE2 : (0 : ℚ) < 2 ^ E := by positivity
  have hhalf : |value x - v| ≤ 2 ^ E / 2 := by
    have hsplit : value x - v = ((nearestEven (v / 2 ^ E) : ℚ) - v / 2 ^ E) * 2 ^ E := by
      rw [hval, sub_mul, div_mul_cancel₀ _ hE2.ne']
    rw [hsplit, abs_mul, abs_of_pos hE2]
    have := abs_nearestEven_sub_le (r := v / 2 ^ E) (by positivity)
    nlinarith
  -- half a unit at the rounding exponent: the least subnormal's half, or a `2⁻⁵³` part of `v`
  have hunit : 2 ^ E / 2 ≤ v / 2 ^ 53 + 1 / 2 ^ 1075 := by
    rcases (roundingExponent_ge_min v).eq_or_lt with hmin | hgt
    · rw [show E = -1074 from hmin.symm]
      have : (2 : ℚ) ^ (-1074 : ℤ) / 2 = 1 / 2 ^ 1075 := by
        rw [zpow_neg, zpow_ofNat, div_eq_mul_inv, one_div, ← mul_inv, ← pow_succ]
      rw [this]
      linarith [div_nonneg hpos.le (by positivity : (0 : ℚ) ≤ 2 ^ 53)]
    · have h52 := two_pow_le_div_zpow_roundingExponent hpos hgt
      rw [le_div_iff₀ hE2] at h52
      have : (2 : ℚ) ^ E / 2 ≤ v / 2 ^ 53 := by
        rw [div_le_div_iff₀ (by norm_num) (by norm_num)]
        nlinarith
      linarith [(by positivity : (0 : ℚ) ≤ 1 / 2 ^ 1075)]
  have herr : |value x - v| ≤ |v| / 2 ^ 53 + 1 / 2 ^ 1075 := by
    rw [abs_of_pos hpos]
    exact hhalf.trans hunit
  have hcast : ((|value x - v| : ℚ) : ℝ) ≤ ((|v| / 2 ^ 53 + 1 / 2 ^ 1075 : ℚ) : ℝ) := by
    exact_mod_cast herr
  push_cast at hcast
  rw [underflow]
  exact hcast

end Positive

section Sign

theorem neg_neg_float (x : Float) : -(-x) = x :=
  eq_of_unpack_eq (by rw [unpack_neg, unpack_neg, UnpackedFloat.neg_neg])

theorem sub_neg_eq_add_float (x y : Float) : x - -y = x + y := by
  rw [sub_eq_add_neg_float, neg_neg_float]

theorem neg_mul_float (x y : Float) : -x * y = -(x * y) :=
  eq_of_unpack_eq (by rw [unpack_mul, unpack_neg, unpack_neg, unpack_mul, mul_neg_left,
    unpack_pack_neg])

theorem mul_neg_float (x y : Float) : x * -y = -(x * y) :=
  eq_of_unpack_eq (by rw [unpack_mul, unpack_neg, unpack_neg, unpack_mul, mul_neg_right,
    unpack_pack_neg])

theorem real_neg (x : Float) : real (-x) = -real x := by
  simp [real, value_neg]

theorem EqUpToZeroSign.symm (h : EqUpToZeroSign x y) : EqUpToZeroSign y x :=
  Eq.symm h

theorem EqUpToZeroSign.real_eq (h : EqUpToZeroSign x y) :
    real x = real y ∧ x.isFinite = y.isFinite := by
  rcases eqUpToZeroSign_iff.mp h with rfl | ⟨hx, hy⟩
  · exact ⟨rfl, rfl⟩
  · obtain ⟨s, hs⟩ := (beq_zero_iff x).mp hx
    obtain ⟨t, ht⟩ := (beq_zero_iff y).mp hy
    rw [real, real, value_of_unpack_zero hs, value_of_unpack_zero ht, isFinite_of_unpack_zero hs,
      isFinite_of_unpack_zero ht]
    exact ⟨rfl, rfl⟩

theorem zero_add_eqUpToZeroSign (x : Float) : EqUpToZeroSign (0 + x) x := by
  rw [EqUpToZeroSign, unpack_add, unpack_zero]
  rcases hu : x.toModel.unpack with s | _ | s | ⟨s, m, e, hm⟩
  · cases s <;> rfl
  · rfl
  · cases s <;> rfl
  · change clearZeroSign (unpack .binary64 (pack .binary64 (.finite s m e hm))) = _
    rw [← hu]
    exact congrArg clearZeroSign (unpack_pack_unpack x)

theorem Rounds.neg {v : ℝ} (h : Rounds x v) : Rounds (-x) (-v) := by
  refine ⟨by rw [isFinite_neg]; exact h.isFinite, ?_⟩
  rw [real_neg, abs_neg, show -real x - -v = -(real x - v) by ring, abs_neg]
  exact h.abs_sub_le

theorem Rounds.of_eqUpToZeroSign {v : ℝ} (h : Rounds x v) (hxy : EqUpToZeroSign x y) :
    Rounds y v := by
  obtain ⟨hr, hf⟩ := hxy.real_eq
  exact ⟨hf ▸ h.isFinite, hr ▸ h.abs_sub_le⟩

end Sign

section Operations

theorem rounds_sub (hx : x.isFinite = true) (hy : y.isFinite = true)
    (hb : |real x - real y| ≤ 2 ^ 1023) : Rounds (x - y) (real x - real y) := by
  have hb' : |value x - value y| ≤ 2 ^ 1023 := by
    have : |((value x - value y : ℚ) : ℝ)| ≤ 2 ^ 1023 := by push_cast; exact hb
    exact_mod_cast this
  rcases le_or_gt (value y) (value x) with hle | hlt
  · have h := (RoundsFrom.sub_of_le hx hy hle).rounds (le_of_abs_le hb')
    push_cast at h
    exact h
  · -- `x - y` is the negation of `y - x`, up to the sign of a zero
    have h := (RoundsFrom.sub_of_le hy hx hlt.le).rounds (by rw [abs_sub_comm] at hb'; exact le_of_abs_le hb')
    push_cast at h
    have h' := h.neg.of_eqUpToZeroSign (eqUpToZeroSign_sub_swap y x).symm
    rwa [neg_sub] at h'

theorem rounds_add (hx : x.isFinite = true) (hy : y.isFinite = true)
    (hb : |real x + real y| ≤ 2 ^ 1023) : Rounds (x + y) (real x + real y) := by
  have h := rounds_sub hx (by rw [isFinite_neg]; exact hy) (by rwa [real_neg, sub_neg_eq_add])
  rwa [sub_neg_eq_add_float, real_neg, sub_neg_eq_add] at h

theorem rounds_mul_of_nonneg (hx : x.isFinite = true) (hy : y.isFinite = true)
    (hx0 : 0 ≤ value x) (hy0 : 0 ≤ value y) (hb : |real x * real y| ≤ 2 ^ 1023) :
    Rounds (x * y) (real x * real y) := by
  have h := (RoundsFrom.mul hx hy hx0 hy0).rounds (by
    have : |((value x * value y : ℚ) : ℝ)| ≤ 2 ^ 1023 := by push_cast; exact hb
    exact le_of_abs_le (by exact_mod_cast this))
  push_cast at h
  exact h

theorem rounds_mul (hx : x.isFinite = true) (hy : y.isFinite = true)
    (hb : |real x * real y| ≤ 2 ^ 1023) : Rounds (x * y) (real x * real y) := by
  have hleft : ∀ {x : Float}, x.isFinite = true → 0 ≤ value x → |real x * real y| ≤ 2 ^ 1023 →
      Rounds (x * y) (real x * real y) := by
    intro x hx hx0 hb
    rcases le_or_gt 0 (value y) with hy0 | hy0
    · exact rounds_mul_of_nonneg hx hy hx0 hy0 hb
    · have h := rounds_mul_of_nonneg hx (by rw [isFinite_neg]; exact hy) hx0
        (by rw [value_neg]; linarith) (by rwa [real_neg, mul_neg, abs_neg])
      rw [mul_neg_float, real_neg, mul_neg] at h
      simpa only [neg_neg_float, neg_neg] using h.neg
  rcases le_or_gt 0 (value x) with hx0 | hx0
  · exact hleft hx hx0 hb
  · have h := hleft (x := -x) (by rw [isFinite_neg]; exact hx) (by rw [value_neg]; linarith)
      (by rwa [real_neg, neg_mul, abs_neg])
    rw [neg_mul_float, real_neg, neg_mul] at h
    simpa only [neg_neg_float, neg_neg] using h.neg

theorem rounds_div_of_nonneg (hx : x.isFinite = true) (hy : y.isFinite = true)
    (hx0 : 0 ≤ value x) (hy0 : 0 < value y) (hb : |real x / real y| ≤ 2 ^ 1023) :
    Rounds (x / y) (real x / real y) := by
  have h := (RoundsFrom.div hx hy hx0 hy0).rounds (by
    have : |((value x / value y : ℚ) : ℝ)| ≤ 2 ^ 1023 := by push_cast; exact hb
    exact le_of_abs_le (by exact_mod_cast this))
  push_cast at h
  exact h

/-- The quotient of finite floats by a non-zero one, whose exact quotient is at most `2 ^ 1023`
in size. -/
theorem rounds_div (hx : x.isFinite = true) (hy : y.isFinite = true) (hy0 : real y ≠ 0)
    (hb : |real x / real y| ≤ 2 ^ 1023) : Rounds (x / y) (real x / real y) := by
  have hy0' : value y ≠ 0 := by
    intro h
    exact hy0 (by simp [real, h])
  have hleft : ∀ {x : Float}, x.isFinite = true → 0 ≤ value x → |real x / real y| ≤ 2 ^ 1023 →
      Rounds (x / y) (real x / real y) := by
    intro x hx hx0 hb
    rcases lt_or_gt_of_ne hy0' with hneg | hpos
    · have h := rounds_div_of_nonneg hx (by rw [isFinite_neg]; exact hy) hx0
        (by rw [value_neg]; linarith) (by rwa [real_neg, div_neg, abs_neg])
      rw [div_neg_float, real_neg, div_neg] at h
      simpa only [neg_neg_float, neg_neg] using h.neg
    · exact rounds_div_of_nonneg hx hy hx0 hpos hb
  rcases le_or_gt 0 (value x) with hx0 | hx0
  · exact hleft hx hx0 hb
  · have h := hleft (x := -x) (by rw [isFinite_neg]; exact hx) (by rw [value_neg]; linarith)
      (by rwa [real_neg, neg_div, abs_neg])
    rw [neg_div_float, real_neg, neg_div] at h
    simpa only [neg_neg_float, neg_neg] using h.neg

end Operations

section Order

theorem not_lt_of_real_lt (hx : x.isFinite = true) (hy : y.isFinite = true)
    (h : real y < real x) : ¬x < y := by
  have hy' : y.toModel.unpack ≠ .notANumber := unpack_ne_notANumber_of_isFinite hy
  have hx' : x.toModel.unpack ≠ .notANumber := unpack_ne_notANumber_of_isFinite hx
  rw [lt_iff_sortKey_lt hx' hy']
  intro hlt
  have := value_le_of_sortKey_le hx hy hlt.le
  have : real x ≤ real y := by simp only [real]; exact_mod_cast this
  linarith

theorem real_le_of_le (hx : x.isFinite = true) (hy : y.isFinite = true) (h : x ≤ y) :
    real x ≤ real y := by
  simp only [real]
  exact_mod_cast value_le_of_le hx hy h

end Order

end CrystalLattice.Binary64
