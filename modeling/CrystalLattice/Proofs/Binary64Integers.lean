import Mathlib
import CrystalLattice.Binary64

/-!
# Binary64 floats that hold integers

Below `2 ^ 53` every integer is a float (`intForm`, `HoldsInt`), and sums, differences and
products of such floats are exact while the result stays below `2 ^ 53`. Rounding shifts a
mantissa once to the target exponent (`roundWithAccuracy_binary64`).
-/

namespace CrystalLattice.Binary64

open Float.Model Float.Model.UnpackedFloat

section Rounding

theorem targetExponent_binary64 (t : ℤ) :
    Format.binary64.targetExponent t = max (t - 53) (-1074) := rfl

theorem log2_shiftLeft {N : ℕ} (hN : N ≠ 0) (t : ℕ) : (N <<< t).log2 = N.log2 + t := by
  rw [Nat.log2_eq_iff (by simp [Nat.shiftLeft_eq, hN]), Nat.shiftLeft_eq]
  have h₁ := Nat.log2_self_le hN
  have h₂ := Nat.lt_log2_self (n := N)
  constructor
  · rw [pow_add]
    exact Nat.mul_le_mul_right _ h₁
  · calc N * 2 ^ t < 2 ^ (N.log2 + 1) * 2 ^ t := Nat.mul_lt_mul_of_pos_right h₂ (by positivity)
      _ = 2 ^ (N.log2 + t + 1) := by ring

theorem log2_le_of_lt {N : ℕ} (h : N < 2 ^ 53) : N.log2 ≤ 52 := by
  rcases Nat.eq_zero_or_pos N with rfl | hN
  · simp
  · have := (Nat.log2_lt hN.ne').mpr h; omega

theorem mantissa_bounds_of_log2 {m : ℕ} (hm : 0 < m) (hlog : m.log2 = 52) :
    2 ^ 52 ≤ m ∧ m < 2 ^ 53 := by
  have h₁ := Nat.log2_self_le hm.ne'
  have h₂ := Nat.lt_log2_self (n := m)
  rw [hlog] at h₁ h₂
  exact ⟨h₁, h₂⟩

theorem mantissa_shiftRight (em : ExtendedMantissa) (k : ℕ) :
    (em >>> k).mantissa = em.mantissa / 2 ^ k := by
  induction k with
  | zero => simp [HShiftRight.hShiftRight, Nat.repeat]
  | succ k ih =>
    change (ExtendedMantissa.shiftRightOne (em >>> k)).mantissa = _
    rw [ExtendedMantissa.shiftRightOne, ih, Nat.div_div_eq_div_mul, pow_succ]

theorem roundedMantissa_le (em : ExtendedMantissa) : em.roundedMantissa ≤ em.mantissa + 1 := by
  obtain ⟨m, r, s⟩ := em
  cases r <;> cases s <;>
    simp [ExtendedMantissa.roundedMantissa, ExtendedMantissa.accuracy, Accuracy.roundToNearestEven]
  omega

theorem roundedMantissa_exact (m : ℕ) : (⟨m, false, false⟩ : ExtendedMantissa).roundedMantissa = m :=
  rfl

theorem mantissa_ofMantissaAndAccuracy (P : ℕ) (acc : Accuracy) :
    (ExtendedMantissa.ofMantissaAndAccuracy P acc).mantissa = P := by
  cases acc with
  | exact => rfl
  | inexact o => cases o <;> rfl

theorem shiftToTargetExponent_binary64 (P : ℕ) (E : ℤ) (acc : Accuracy) :
    shiftToTargetExponent .binary64 P E acc =
      (ExtendedMantissa.ofMantissaAndAccuracy P acc >>>
          (max (P.log2 + 1 + E - 53) (-1074) - E).toNat,
        E + (max (P.log2 + 1 + E - 53) (-1074) - E).toNat) := rfl

theorem shiftToTargetExponent_bounds (P : ℕ) (E : ℤ) (acc : Accuracy) :
    (shiftToTargetExponent .binary64 P E acc).1.mantissa < 2 ^ 53 ∧
      -1074 ≤ (shiftToTargetExponent .binary64 P E acc).2 := by
  rw [shiftToTargetExponent_binary64]
  refine ⟨?_, by dsimp only; omega⟩
  rw [mantissa_shiftRight, mantissa_ofMantissaAndAccuracy, Nat.div_lt_iff_lt_mul (by positivity),
    ← pow_add]
  exact lt_of_lt_of_le Nat.lt_log2_self (Nat.pow_le_pow_right (by norm_num) (by omega))

/-- The second shift, on a rounded mantissa of at most `2 ^ 53` at an exponent in range, keeps a
mantissa below `2 ^ 53` where it is and halves a carry of `2 ^ 53` into the next exponent. -/
theorem shiftToTargetExponent_carry {r : ℕ} (hr : r ≤ 2 ^ 53) {e : ℤ} (he : -1074 ≤ e) :
    shiftToTargetExponent .binary64 r e .exact =
      if r < 2 ^ 53 then (⟨r, false, false⟩, e) else (⟨2 ^ 52, false, false⟩, e + 1) := by
  rw [shiftToTargetExponent_binary64]
  split_ifs with hlt
  · have hlog := log2_le_of_lt hlt
    rw [show (max ((r.log2 : ℤ) + 1 + e - 53) (-1074) - e).toNat = 0 by omega]
    simp [HShiftRight.hShiftRight, Nat.repeat, ExtendedMantissa.ofMantissaAndAccuracy]
  · obtain rfl : r = 2 ^ 53 := by omega
    rw [Nat.log2_two_pow, show (max (((53 : ℕ) : ℤ) + 1 + e - 53) (-1074) - e).toNat = 1 by omega]
    simp [HShiftRight.hShiftRight, Nat.repeat, ExtendedMantissa.ofMantissaAndAccuracy,
      ExtendedMantissa.shiftRightOne]

/-- Binary64 rounds the mantissa once, at the exponent where the first shift puts it; the second
shift only takes up a carry of the rounded mantissa to `2 ^ 53`. -/
theorem roundWithAccuracy_binary64 (s : Sign) {P : ℕ} {E : ℤ} {acc : Accuracy}
    {em : ExtendedMantissa} {e₁ : ℤ} (hfirst : shiftToTargetExponent .binary64 P E acc = (em, e₁)) :
    roundWithAccuracy .binary64 s P E acc =
      if h : em.roundedMantissa = 0 then .zero s
      else if em.roundedMantissa < 2 ^ 53 then
        .finite s em.roundedMantissa e₁ (Nat.pos_of_ne_zero h)
      else .finite s (2 ^ 52) (e₁ + 1) (by positivity) := by
  obtain ⟨hm, he⟩ := shiftToTargetExponent_bounds P E acc
  simp only [hfirst] at hm he
  have hr := roundedMantissa_le em
  rw [roundWithAccuracy, hfirst]
  dsimp only [-Nat.reducePow]
  rw [shiftToTargetExponent_carry (by omega) he]
  by_cases hlt : em.roundedMantissa < 2 ^ 53
  · simp only [if_pos hlt]
  · -- a carry: the rounded mantissa is `2 ^ 53`, halved at the next exponent
    have hne : em.roundedMantissa ≠ 0 := by omega
    simp only [if_neg hlt, dif_neg hne]
    rfl

theorem shiftRight_of_dvd (m k : ℕ) (h : 2 ^ k ∣ m) :
    (ExtendedMantissa.mk m false false) >>> k = ⟨m / 2 ^ k, false, false⟩ := by
  induction k with
  | zero => simp [HShiftRight.hShiftRight, Nat.repeat]
  | succ k ih =>
    have hk : 2 ^ k ∣ m := (pow_dvd_pow 2 (Nat.le_succ k)).trans h
    change ExtendedMantissa.shiftRightOne (ExtendedMantissa.mk m false false >>> k) = _
    rw [ih hk]
    have heven : m / 2 ^ k % 2 = 0 := by
      obtain ⟨c, rfl⟩ := h
      rw [pow_succ, mul_assoc, Nat.mul_div_cancel_left _ (by positivity)]
      simp
    simp [ExtendedMantissa.shiftRightOne, heven, Nat.div_div_eq_div_mul, pow_succ]

/-- The normal mantissa of `0 < N < 2 ^ 53`: `N` shifted up to 53 bits. -/
def normalMantissa (N : ℕ) : ℕ := N <<< (52 - N.log2)

theorem normalMantissa_pos {N : ℕ} (hN : 0 < N) : 0 < normalMantissa N := by
  simp [normalMantissa, Nat.shiftLeft_eq]; omega

theorem log2_normalMantissa {N : ℕ} (hN : 0 < N) (h : N < 2 ^ 53) :
    (normalMantissa N).log2 = 52 := by
  rw [normalMantissa, log2_shiftLeft hN.ne']
  have := log2_le_of_lt h
  omega

theorem targetExponent_shiftLeft {N : ℕ} (hN : 0 < N) (h : N < 2 ^ 53) (j : ℕ) :
    Format.binary64.targetExponent (totalExponent (N <<< j) (-j)) = (N.log2 : ℤ) - 52 := by
  have hl := log2_le_of_lt h
  rw [targetExponent_binary64, totalExponent, log2_shiftLeft hN.ne']
  push_cast
  omega

/-- A mantissa `N * 2 ^ j` at exponent `-j` rounds without loss to the normal form of `N`, once
the shift `j` reaches 53 significant bits. -/
theorem roundWithAccuracy_shiftLeft (s : Sign) {N : ℕ} (hN : 0 < N) (h : N < 2 ^ 53) {j : ℕ}
    (hj : 52 ≤ N.log2 + j) :
    roundWithAccuracy .binary64 s (N <<< j) (-j) .exact =
      .finite s (normalMantissa N) (N.log2 - 52) (normalMantissa_pos hN) := by
  have hl := log2_le_of_lt h
  have htarget := targetExponent_shiftLeft hN h j
  have hdvd : 2 ^ (N.log2 + j - 52) ∣ N <<< j := by
    rw [Nat.shiftLeft_eq]
    exact Dvd.dvd.mul_left (pow_dvd_pow 2 (by omega)) N
  have hsplit : N <<< j = normalMantissa N * 2 ^ (N.log2 + j - 52) := by
    rw [normalMantissa, Nat.shiftLeft_eq, Nat.shiftLeft_eq, mul_assoc, ← pow_add]
    congr 2
    omega
  have hfirst : shiftToTargetExponent .binary64 (N <<< j) (-j) .exact =
      (⟨normalMantissa N, false, false⟩, (N.log2 : ℤ) - 52) := by
    unfold shiftToTargetExponent shiftToExponent
    simp only [htarget]
    rw [show ((N.log2 : ℤ) - 52 - -j).toNat = N.log2 + j - 52 by omega]
    simp only [ExtendedMantissa.ofMantissaAndAccuracy, shiftRight_of_dvd _ _ hdvd]
    rw [hsplit, Nat.mul_div_cancel _ (by positivity)]
    simp only [Prod.mk.injEq, true_and]
    omega
  have hlt : normalMantissa N < 2 ^ 53 :=
    (mantissa_bounds_of_log2 (normalMantissa_pos hN) (log2_normalMantissa hN h)).2
  rw [roundWithAccuracy_binary64 s hfirst, roundedMantissa_exact,
    dif_neg (normalMantissa_pos hN).ne', if_pos hlt]

theorem round_shiftLeft (s : Sign) {N : ℕ} (hN : 0 < N) (h : N < 2 ^ 53) (j : ℕ) :
    UnpackedFloat.round .binary64 s (N <<< j) (-j) =
      .finite s (normalMantissa N) (N.log2 - 52) (normalMantissa_pos hN) := by
  have hl := log2_le_of_lt h
  have htarget := targetExponent_shiftLeft hN h j
  unfold UnpackedFloat.round decreaseExponent
  simp only [htarget]
  rw [show ((-j : ℤ) - (N.log2 - 52)).toNat = 52 - N.log2 - j by omega, ← Nat.shiftLeft_add,
    show (-j : ℤ) - ((52 - N.log2 - j : ℕ) : ℤ) = -((j + (52 - N.log2 - j) : ℕ) : ℤ) by omega]
  exact roundWithAccuracy_shiftLeft s hN h (by omega)

end Rounding

section Integers

def intSign (n : ℤ) : Sign := if n < 0 then .negative else .positive

/-- The unpacked form of an integer below `2 ^ 53` in magnitude: the normal form of its
magnitude with its sign, and the positive zero for `0`. -/
def intForm (n : ℤ) : UnpackedFloat :=
  if h : n = 0 then .zero .positive
  else .finite (intSign n) (normalMantissa n.natAbs) (n.natAbs.log2 - 52)
    (normalMantissa_pos (Int.natAbs_pos.mpr h))

theorem normalize_mul_pow {c : ℤ} (hc : |c| < 2 ^ 53) (j : ℕ) (zs : Sign) :
    UnpackedFloat.normalize .binary64 (c * 2 ^ j) (-j) zs =
      if c = 0 then .zero zs else intForm c := by
  have hN : c.natAbs < 2 ^ 53 := by
    zify
    exact hc
  rcases lt_trichotomy c 0 with hneg | rfl | hpos
  · have hcmp : compare (c * 2 ^ j) 0 = .lt := compare_lt_iff_lt.mpr (by
      have : (0 : ℤ) < 2 ^ j := by positivity
      nlinarith)
    have hmag : (-(c * 2 ^ j)).toNat = c.natAbs <<< j := by
      have : -(c * 2 ^ j) = ((c.natAbs * 2 ^ j : ℕ) : ℤ) := by
        push_cast
        rw [abs_of_neg hneg]
        ring
      rw [Nat.shiftLeft_eq, this, Int.toNat_natCast]
    rw [UnpackedFloat.normalize, hcmp]
    simp only [hmag]
    rw [round_shiftLeft _ (by omega) hN, if_neg hneg.ne, intForm, dif_neg hneg.ne, intSign,
      if_pos hneg]
  · simp [UnpackedFloat.normalize]
  · have hcmp : compare (c * 2 ^ j) 0 = .gt := compare_gt_iff_gt.mpr (by positivity)
    have hmag : (c * 2 ^ j).toNat = c.natAbs <<< j := by
      have : c * 2 ^ j = ((c.natAbs * 2 ^ j : ℕ) : ℤ) := by
        push_cast
        rw [abs_of_pos hpos]
      rw [Nat.shiftLeft_eq, this, Int.toNat_natCast]
    rw [UnpackedFloat.normalize, hcmp]
    simp only [hmag]
    rw [round_shiftLeft _ (by omega) hN, if_neg hpos.ne', intForm, dif_neg hpos.ne', intSign,
      if_neg (not_lt.mpr hpos.le)]

theorem unpack_pack_normal (s : Sign) {m : ℕ} (hm : 0 < m) (hlog : m.log2 = 52) {e : ℤ}
    (he : -1074 ≤ e) (he' : e ≤ 971) :
    (Float.Model.pack (.finite s m e hm)).unpack = .finite s m e hm := by
  obtain ⟨hge, hlt⟩ := mantissa_bounds_of_log2 hm hlog
  have hbiased : (e + 1023 + 52).toNat + 1 < 2 ^ 11 := by omega
  unfold Float.Model.unpack Float.Model.pack
  have hbias : Format.binary64.exponentBias = 1023 := rfl
  have hbits : Format.binary64.mantissaBits = 53 := rfl
  simp only [UnpackedFloat.pack, hbias, hbits, hlog]
  rw [if_neg (by push_cast; omega), if_pos trivial]
  simp only [UnpackedFloat.unpack, unpackExponent_packComponents, unpackMantissa_packComponents,
    unpackSign_packComponents, Sign.ofBitVec_toBitVec, hbias, Nat.cast_ofNat]
  have hexp : (BitVec.ofNat 11 (e + ↑1023 + ↑52).toNat).toNat = (e + 1075).toNat := by
    rw [BitVec.toNat_ofNat]
    push_cast
    omega
  have hne₁ : BitVec.ofNat 11 (e + ↑1023 + ↑52).toNat ≠ -1#11 := by
    intro h
    have := congrArg BitVec.toNat h
    rw [hexp] at this
    simp at this
    omega
  have hne₀ : BitVec.ofNat 11 (e + ↑1023 + ↑52).toNat ≠ 0#11 := by
    intro h
    have := congrArg BitVec.toNat h
    rw [hexp] at this
    simp at this
    omega
  have hmant : (1#1 ++ BitVec.ofNat 52 m).toNat = m := by
    have hlow : (BitVec.ofNat 52 m).toNat < 2 ^ 52 := BitVec.isLt _
    rw [BitVec.toNat_append, ← Nat.shiftLeft_add_eq_or_of_lt hlow, BitVec.toNat_ofNat]
    norm_num at hlt hge ⊢
    omega
  rw [if_neg hne₁, if_neg hne₀]
  simp only [hexp, hmant]
  congr
  omega

theorem intForm_of_ne_zero {n : ℤ} (h : n ≠ 0) :
    intForm n = .finite (intSign n) (normalMantissa n.natAbs) (n.natAbs.log2 - 52)
      (normalMantissa_pos (Int.natAbs_pos.mpr h)) := dif_neg h

theorem natAbs_lt_of_abs_lt {n : ℤ} (h : |n| < 2 ^ 53) : n.natAbs < 2 ^ 53 := by
  zify
  exact h

/-- The normal mantissa of `n`, shifted up by `k` more places and signed, is `n * 2 ^ (52 - l + k)`
for `l` the position of the leading bit of `n`. -/
theorem apply_normalMantissa_shiftLeft {n : ℤ} (k : ℕ) :
    (intSign n).apply ((normalMantissa n.natAbs <<< k : ℕ) : ℤ) =
      n * 2 ^ (52 - n.natAbs.log2 + k) := by
  rw [normalMantissa, ← Nat.shiftLeft_add, Nat.shiftLeft_eq]
  unfold intSign
  split_ifs with h
  · simp only [Sign.apply, Nat.cast_mul, Int.natCast_natAbs, abs_of_neg h, Nat.cast_pow,
      Nat.cast_ofNat]
    ring
  · simp only [Sign.apply, Nat.cast_mul, Int.natCast_natAbs, abs_of_nonneg (not_lt.mp h),
      Nat.cast_pow, Nat.cast_ofNat]

theorem add_intForm_finite {a b : ℤ} (ha : a ≠ 0) (hb : b ≠ 0) (ha' : |a| < 2 ^ 53)
    (hb' : |b| < 2 ^ 53) (hab : |a + b| < 2 ^ 53) :
    add .binary64 (intForm a) (intForm b) = intForm (a + b) := by
  have hla := log2_le_of_lt (natAbs_lt_of_abs_lt ha')
  have hlb := log2_le_of_lt (natAbs_lt_of_abs_lt hb')
  rw [intForm_of_ne_zero ha, intForm_of_ne_zero hb]
  simp only [UnpackedFloat.add, decreaseExponent]
  rw [apply_normalMantissa_shiftLeft, apply_normalMantissa_shiftLeft]
  set la := a.natAbs.log2
  set lb := b.natAbs.log2
  rw [show 52 - la + ((la : ℤ) - 52 - min ((la : ℤ) - 52) ((lb : ℤ) - 52)).toNat =
      52 - min la lb by omega,
    show 52 - lb + ((lb : ℤ) - 52 - min ((la : ℤ) - 52) ((lb : ℤ) - 52)).toNat =
      52 - min la lb by omega,
    show min ((la : ℤ) - 52) ((lb : ℤ) - 52) = -((52 - min la lb : ℕ) : ℤ) by omega,
    ← add_mul, normalize_mul_pow hab]
  split_ifs with h
  · rw [h]
    rfl
  · rfl

theorem intSign_neg {b : ℤ} (hb : b ≠ 0) : intSign (-b) = -intSign b := by
  unfold intSign
  rcases lt_or_gt_of_ne hb with hb | hb <;> simp [hb, hb.not_gt] <;> rfl

theorem intSign_mul (a b : ℤ) (ha : a ≠ 0) (hb : b ≠ 0) :
    intSign a * intSign b = intSign (a * b) := by
  unfold intSign
  rcases lt_or_gt_of_ne ha with ha | ha <;> rcases lt_or_gt_of_ne hb with hb | hb
  · simp [ha, hb, (mul_pos_of_neg_of_neg ha hb).not_gt]
    rfl
  · simp [ha, hb.not_gt, mul_neg_of_neg_of_pos ha hb]
    rfl
  · simp [ha.not_gt, hb, mul_neg_of_pos_of_neg ha hb]
    rfl
  · simp [ha.not_gt, hb.not_gt, (mul_pos ha hb).not_gt]
    rfl

theorem le_log2_mul {a b : ℕ} (ha : a ≠ 0) (hb : b ≠ 0) : a.log2 + b.log2 ≤ (a * b).log2 := by
  apply Nat.le_log2 (Nat.mul_ne_zero ha hb) |>.mpr
  rw [pow_add]
  exact Nat.mul_le_mul (Nat.log2_self_le ha) (Nat.log2_self_le hb)

theorem apply_neg_sign (s : Sign) (n : ℤ) : (-s).apply n = -s.apply n := by
  cases s <;> simp [Sign.apply]

theorem sub_eq_add_neg (spec : Format) (a b : UnpackedFloat) : sub spec a b = add spec a b.neg := by
  cases a <;> cases b
  case infinity.infinity s t => cases s <;> cases t <;> rfl
  case zero.zero s t => cases s <;> cases t <;> rfl
  case finite.finite s m e hm t n f hn =>
    simp only [UnpackedFloat.sub, UnpackedFloat.add, UnpackedFloat.neg, apply_neg_sign, Int.sub_eq_add_neg]
  all_goals rfl

theorem neg_intForm {n : ℤ} (hn : n ≠ 0) : neg (intForm n) = intForm (-n) := by
  rw [intForm_of_ne_zero hn, intForm_of_ne_zero (neg_ne_zero.mpr hn)]
  simp only [Int.natAbs_neg, intSign_neg hn]
  rfl

theorem sub_intForm_finite {a b : ℤ} (ha : a ≠ 0) (hb : b ≠ 0) (ha' : |a| < 2 ^ 53)
    (hb' : |b| < 2 ^ 53) (hab : |a - b| < 2 ^ 53) :
    sub .binary64 (intForm a) (intForm b) = intForm (a - b) := by
  rw [sub_eq_add_neg, neg_intForm hb, Int.sub_eq_add_neg]
  exact add_intForm_finite ha (neg_ne_zero.mpr hb) ha' (by rwa [abs_neg])
    (by rwa [← Int.sub_eq_add_neg])

theorem log2_mul_le {a b : ℕ} (ha : a ≠ 0) (hb : b ≠ 0) : (a * b).log2 ≤ a.log2 + b.log2 + 1 := by
  rw [← Nat.lt_succ_iff, Nat.log2_lt (Nat.mul_ne_zero ha hb)]
  calc a * b < 2 ^ (a.log2 + 1) * 2 ^ (b.log2 + 1) :=
        Nat.mul_lt_mul'' Nat.lt_log2_self Nat.lt_log2_self
    _ = 2 ^ (a.log2 + b.log2 + 1 + 1) := by rw [← pow_add]; ring_nf

theorem mul_intForm_finite {a b : ℤ} (ha : a ≠ 0) (hb : b ≠ 0) (ha' : |a| < 2 ^ 53)
    (hb' : |b| < 2 ^ 53) (hab : |a * b| < 2 ^ 53) :
    mul .binary64 (intForm a) (intForm b) = intForm (a * b) := by
  have hla := log2_le_of_lt (natAbs_lt_of_abs_lt ha')
  have hlb := log2_le_of_lt (natAbs_lt_of_abs_lt hb')
  have hab₀ : a * b ≠ 0 := mul_ne_zero ha hb
  have hlog := le_log2_mul (Int.natAbs_ne_zero.mpr ha) (Int.natAbs_ne_zero.mpr hb)
  rw [intForm_of_ne_zero ha, intForm_of_ne_zero hb, intForm_of_ne_zero hab₀]
  simp only [UnpackedFloat.mul]
  have hm : normalMantissa a.natAbs * normalMantissa b.natAbs =
      (a * b).natAbs <<< (104 - a.natAbs.log2 - b.natAbs.log2) := by
    simp only [normalMantissa, Nat.shiftLeft_eq, Int.natAbs_mul]
    rw [show 104 - a.natAbs.log2 - b.natAbs.log2 =
      (52 - a.natAbs.log2) + (52 - b.natAbs.log2) by omega, pow_add]
    ring
  have he : ((a.natAbs.log2 : ℤ) - 52) + ((b.natAbs.log2 : ℤ) - 52) =
      -((104 - a.natAbs.log2 - b.natAbs.log2 : ℕ) : ℤ) := by omega
  simp only [hm, he, intSign_mul a b ha hb]
  exact roundWithAccuracy_shiftLeft _ (Int.natAbs_pos.mpr hab₀) (natAbs_lt_of_abs_lt hab)
    (by rw [Int.natAbs_mul]; omega)

theorem intSign_div_unit (a : ℤ) {d : ℤ} (ha : a ≠ 0) (hd : d = 1 ∨ d = -1) :
    intSign a / intSign d = intSign (a * d) := by
  unfold intSign
  rcases hd with rfl | rfl <;> rcases lt_or_gt_of_ne ha with ha | ha
  · simp [ha]
    rfl
  · simp [ha.not_gt]
    rfl
  · simp [ha, ha.not_gt]
    rfl
  · simp [ha.not_gt, ha]
    rfl

theorem div_intForm_unit {a d : ℤ} (ha : a ≠ 0) (ha' : |a| < 2 ^ 53) (hd : d = 1 ∨ d = -1) :
    div .binary64 (intForm a) (intForm d) = intForm (a * d) := by
  have hla := log2_le_of_lt (natAbs_lt_of_abs_lt ha')
  have hd₀ : d ≠ 0 := by rcases hd with rfl | rfl <;> decide
  have hdabs : d.natAbs = 1 := by rcases hd with rfl | rfl <;> rfl
  have had : (a * d).natAbs = a.natAbs := by rw [Int.natAbs_mul, hdabs, mul_one]
  rw [intForm_of_ne_zero ha, intForm_of_ne_zero hd₀, intForm_of_ne_zero (mul_ne_zero ha hd₀)]
  simp only [UnpackedFloat.div, divCore, hdabs, had, intSign_div_unit a ha hd]
  have hone : normalMantissa 1 = 2 ^ 52 := rfl
  have htarget : min ((a.natAbs.log2 : ℤ) - 52 - ((Nat.log2 1 : ℕ) - 52))
      (Format.binary64.targetExponent
        (totalExponent (normalMantissa a.natAbs) ((a.natAbs.log2 : ℤ) - 52) -
          totalExponent (normalMantissa 1) ((Nat.log2 1 : ℕ) - 52))) =
      -((53 - a.natAbs.log2 : ℕ) : ℤ) := by
    rw [targetExponent_binary64, totalExponent, totalExponent,
      log2_normalMantissa (Int.natAbs_pos.mpr ha) (natAbs_lt_of_abs_lt ha'),
      log2_normalMantissa one_pos (by norm_num)]
    simp only [show Nat.log2 1 = 0 from rfl]
    omega
  simp only [htarget]
  simp only [hone, show Nat.log2 1 = 0 from rfl]
  have hsplit : normalMantissa a.natAbs <<< 53 = (a.natAbs <<< (53 - a.natAbs.log2)) * 2 ^ 52 := by
    simp only [normalMantissa, Nat.shiftLeft_eq, mul_assoc, ← pow_add]
    congr 2
    omega
  rw [show ((a.natAbs.log2 : ℤ) - 52 - ((0 : ℕ) - 52) - -((53 - a.natAbs.log2 : ℕ) : ℤ)).toNat = 53 by
      omega, hsplit, Nat.mul_div_cancel _ (by positivity), Nat.mul_mod_left]
  exact roundWithAccuracy_shiftLeft _ (Int.natAbs_pos.mpr ha) (natAbs_lt_of_abs_lt ha') (by omega)

/-- `u` holds the integer `n`, which is below `2 ^ 53` in magnitude: `u` is the normal form of
`n` or, for `n = 0`, a zero of either sign. -/
def IsIntForm (u : UnpackedFloat) (n : ℤ) : Prop :=
  |n| < 2 ^ 53 ∧ (u = intForm n ∨ n = 0 ∧ ∃ s, u = .zero s)

theorem isIntForm_intForm {n : ℤ} (h : |n| < 2 ^ 53) : IsIntForm (intForm n) n := ⟨h, .inl rfl⟩

theorem isIntForm_zero (s : Sign) : IsIntForm (.zero s) 0 := ⟨by norm_num, .inr ⟨rfl, s, rfl⟩⟩

variable {u v : UnpackedFloat} {a b : ℤ}

theorem IsIntForm.zero_or (h : IsIntForm u a) :
    (a = 0 ∧ ∃ s, u = .zero s) ∨ (a ≠ 0 ∧ u = intForm a) := by
  obtain ⟨-, rfl | h⟩ := h
  · by_cases ha : a = 0
    · exact .inl ⟨ha, .positive, by rw [ha]; rfl⟩
    · exact .inr ⟨ha, rfl⟩
  · exact .inl h

theorem IsIntForm.add (hu : IsIntForm u a) (hv : IsIntForm v b) (h : |a + b| < 2 ^ 53) :
    IsIntForm (add .binary64 u v) (a + b) := by
  rcases hu.zero_or with ⟨rfl, s, rfl⟩ | ⟨ha, rfl⟩ <;>
    rcases hv.zero_or with ⟨rfl, t, rfl⟩ | ⟨hb, rfl⟩
  · cases s <;> cases t <;> exact isIntForm_zero _
  · rw [zero_add]
    rw [intForm_of_ne_zero hb] at hv ⊢
    exact hv
  · rw [add_zero]
    rw [intForm_of_ne_zero ha] at hu ⊢
    exact hu
  · rw [add_intForm_finite ha hb hu.1 hv.1 h]
    exact isIntForm_intForm h

/-- A sum whose left summand is in normal form comes out in normal form: a negative zero on the
right is absorbed. -/
theorem add_intForm_left (hv : IsIntForm v b) (ha : |a| < 2 ^ 53) (h : |a + b| < 2 ^ 53) :
    add .binary64 (intForm a) v = intForm (a + b) := by
  rcases hv.zero_or with ⟨rfl, t, rfl⟩ | ⟨hb, rfl⟩
  · rw [add_zero]
    by_cases ha₀ : a = 0
    · subst ha₀
      cases t <;> rfl
    · rw [intForm_of_ne_zero ha₀]
      rfl
  · by_cases ha₀ : a = 0
    · subst ha₀
      rw [zero_add, intForm_of_ne_zero hb]
      rfl
    · exact add_intForm_finite ha₀ hb ha hv.1 h

theorem add_intForm_right (hu : IsIntForm u a) (hb : |b| < 2 ^ 53) (h : |a + b| < 2 ^ 53) :
    add .binary64 u (intForm b) = intForm (a + b) := by
  rcases hu.zero_or with ⟨rfl, s, rfl⟩ | ⟨ha, rfl⟩
  · rw [zero_add]
    by_cases hb₀ : b = 0
    · subst hb₀
      cases s <;> rfl
    · rw [intForm_of_ne_zero hb₀]
      rfl
  · by_cases hb₀ : b = 0
    · subst hb₀
      rw [add_zero, intForm_of_ne_zero ha]
      rfl
    · exact add_intForm_finite ha hb₀ hu.1 hb h

theorem IsIntForm.sub (hu : IsIntForm u a) (hv : IsIntForm v b) (h : |a - b| < 2 ^ 53) :
    IsIntForm (sub .binary64 u v) (a - b) := by
  rcases hu.zero_or with ⟨rfl, s, rfl⟩ | ⟨ha, rfl⟩ <;>
    rcases hv.zero_or with ⟨rfl, t, rfl⟩ | ⟨hb, rfl⟩
  · cases s <;> cases t <;> exact isIntForm_zero _
  · rw [zero_sub] at h ⊢
    refine ⟨h, .inl ?_⟩
    rw [intForm_of_ne_zero hb, intForm_of_ne_zero (neg_ne_zero.mpr hb)]
    simp only [Int.natAbs_neg, intSign_neg hb]
    rfl
  · rw [sub_zero]
    rw [intForm_of_ne_zero ha] at hu ⊢
    exact hu
  · rw [sub_intForm_finite ha hb hu.1 hv.1 h]
    exact isIntForm_intForm h

theorem sub_intForm_left (hv : IsIntForm v b) (ha : |a| < 2 ^ 53) (h : |a - b| < 2 ^ 53) :
    sub .binary64 (intForm a) v = intForm (a - b) := by
  rcases hv.zero_or with ⟨rfl, t, rfl⟩ | ⟨hb, rfl⟩
  · rw [sub_zero]
    by_cases ha₀ : a = 0
    · subst ha₀
      cases t <;> rfl
    · rw [intForm_of_ne_zero ha₀]
      rfl
  · by_cases ha₀ : a = 0
    · subst ha₀
      rw [zero_sub, intForm_of_ne_zero hb, intForm_of_ne_zero (neg_ne_zero.mpr hb)]
      simp only [Int.natAbs_neg, intSign_neg hb]
      rfl
    · exact sub_intForm_finite ha₀ hb ha hv.1 h

theorem IsIntForm.mul (hu : IsIntForm u a) (hv : IsIntForm v b) (h : |a * b| < 2 ^ 53) :
    IsIntForm (mul .binary64 u v) (a * b) := by
  rcases hu.zero_or with ⟨rfl, s, rfl⟩ | ⟨ha, rfl⟩ <;>
    rcases hv.zero_or with ⟨rfl, t, rfl⟩ | ⟨hb, rfl⟩
  · exact isIntForm_zero _
  · rw [zero_mul, intForm_of_ne_zero hb]
    exact isIntForm_zero _
  · rw [mul_zero, intForm_of_ne_zero ha]
    exact isIntForm_zero _
  · rw [mul_intForm_finite ha hb hu.1 hv.1 h]
    exact isIntForm_intForm h

theorem IsIntForm.div_unit (hu : IsIntForm u a) {d : ℤ} (hd : d = 1 ∨ d = -1) :
    IsIntForm (div .binary64 u (intForm d)) (a * d) := by
  have hd₀ : d ≠ 0 := by rcases hd with rfl | rfl <;> decide
  have habs : |a * d| = |a| := by rcases hd with rfl | rfl <;> simp
  rcases hu.zero_or with ⟨rfl, s, rfl⟩ | ⟨ha, rfl⟩
  · rw [zero_mul, intForm_of_ne_zero hd₀]
    exact isIntForm_zero _
  · rw [div_intForm_unit ha hu.1 hd]
    exact isIntForm_intForm (habs ▸ hu.1)

theorem unpack_pack_zero (s : Sign) : (Float.Model.pack (.zero s)).unpack = .zero s :=
  (unpack_eq_zero_iff_of_valid valid_pack).mpr rfl

theorem IsIntForm.unpack_pack (h : IsIntForm u a) : (Float.Model.pack u).unpack = u := by
  rcases h.zero_or with ⟨-, s, rfl⟩ | ⟨ha, rfl⟩
  · exact unpack_pack_zero s
  · have hN := natAbs_lt_of_abs_lt h.1
    have hl := log2_le_of_lt hN
    rw [intForm_of_ne_zero ha]
    exact unpack_pack_normal _ _ (log2_normalMantissa (Int.natAbs_pos.mpr ha) hN) (by omega)
      (by omega)

end Integers

section Floats

theorem eq_of_unpack_eq {x y : Float} (h : x.toModel.unpack = y.toModel.unpack) : x = y := by
  have hbits := (unpack_inj_of_valid x.toModel.valid y.toModel.valid).mp h
  rcases x with ⟨⟨bx, vx⟩⟩
  rcases y with ⟨⟨cy, vy⟩⟩
  have : bx = cy := UInt64.toBitVec_inj.mp hbits
  subst this
  rfl

/-- The float `x` holds the integer `n`, which is below `2 ^ 53` in magnitude. -/
def HoldsInt (x : Float) (n : ℤ) : Prop := IsIntForm x.toModel.unpack n

theorem unpack_ofNat {k : ℕ} (h : k < 2 ^ 53) : (Float.ofNat k).toModel.unpack = intForm k := by
  have hk : |(k : ℤ)| < 2 ^ 53 := by
    rw [Nat.abs_cast]
    exact_mod_cast h
  have hten : (Float.ofBits 4607182418800017408).toModel.unpack = intForm 1 := rfl
  have hconv : k.toUInt64.toFloat.toModel.unpack = intForm k := by
    change (Float.Model.pack (normalize .binary64 (k.toUInt64.toNat : ℤ) 0 .positive)).unpack = _
    have hnorm := normalize_mul_pow hk 0 .positive
    simp only [pow_zero, mul_one, CharP.cast_eq_zero, neg_zero] at hnorm
    rw [UInt64.toNat_ofNat_of_lt' (lt_trans h (by decide)), hnorm]
    split_ifs with h₀
    · rw [h₀]
      exact unpack_pack_zero _
    · exact (isIntForm_intForm hk).unpack_pack
  unfold Float.ofNat
  change (Float.ofScientific k false 0).toModel.unpack = _
  rw [Float.ofScientific, dif_pos ⟨h, by decide⟩]
  change (Float.Model.pack (mul .binary64 k.toUInt64.toFloat.toModel.unpack
    (Float.ofBits 4607182418800017408).toModel.unpack)).unpack = _
  rw [hconv, hten]
  by_cases hk₀ : (k : ℤ) = 0
  · rw [hk₀]
    exact unpack_pack_zero _
  · rw [mul_intForm_finite hk₀ one_ne_zero hk (by norm_num) (by rwa [mul_one]), mul_one]
    exact (isIntForm_intForm hk).unpack_pack

theorem unpack_ofInt {n : ℤ} (h : |n| < 2 ^ 53) : (Float.ofInt n).toModel.unpack = intForm n := by
  cases n with
  | ofNat k =>
    have hk : k < 2 ^ 53 := by
      have : ((k : ℤ)) < 2 ^ 53 := lt_of_abs_lt h
      exact_mod_cast this
    exact unpack_ofNat hk
  | negSucc k =>
    have hk : k + 1 < 2 ^ 53 := by
      rw [Int.negSucc_eq, abs_neg] at h
      have : ((k + 1 : ℕ) : ℤ) < 2 ^ 53 := by push_cast; exact lt_of_abs_lt h
      exact_mod_cast this
    change (Float.Model.pack (neg (Float.ofNat (k + 1)).toModel.unpack)).unpack = _
    rw [unpack_ofNat hk, neg_intForm (by omega),
      show -((k + 1 : ℕ) : ℤ) = Int.negSucc k by rw [Int.negSucc_eq]; push_cast; ring]
    exact (isIntForm_intForm h).unpack_pack

variable {x y : Float} {a b : ℤ}

theorem holdsInt_ofInt (h : |a| < 2 ^ 53) : HoldsInt (Float.ofInt a) a := by
  unfold HoldsInt
  rw [unpack_ofInt h]
  exact isIntForm_intForm h

theorem eq_ofInt_of_unpack (h : |a| < 2 ^ 53) (hx : x.toModel.unpack = intForm a) : x = Float.ofInt a :=
  eq_of_unpack_eq (hx.trans (unpack_ofInt h).symm)

theorem HoldsInt.eq_ofInt (h : HoldsInt x a) (ha : a ≠ 0) : x = Float.ofInt a := by
  rcases IsIntForm.zero_or h with ⟨ha', -⟩ | ⟨-, hx⟩
  · exact absurd ha' ha
  · exact eq_ofInt_of_unpack h.1 hx

theorem HoldsInt.isFinite (h : HoldsInt x a) : x.isFinite = true := by
  change x.toModel.unpack.isFinite = true
  rcases IsIntForm.zero_or h with ⟨-, s, hx⟩ | ⟨ha, hx⟩
  · rw [hx]
    rfl
  · rw [hx, intForm_of_ne_zero ha]
    rfl

theorem HoldsInt.add (hx : HoldsInt x a) (hy : HoldsInt y b) (h : |a + b| < 2 ^ 53) :
    HoldsInt (x + y) (a + b) := by
  have hsum := IsIntForm.add hx hy h
  change IsIntForm (Float.Model.pack _).unpack _
  rw [hsum.unpack_pack]
  exact hsum

theorem HoldsInt.sub (hx : HoldsInt x a) (hy : HoldsInt y b) (h : |a - b| < 2 ^ 53) :
    HoldsInt (x - y) (a - b) := by
  have hdiff := IsIntForm.sub hx hy h
  change IsIntForm (Float.Model.pack _).unpack _
  rw [hdiff.unpack_pack]
  exact hdiff

theorem HoldsInt.mul (hx : HoldsInt x a) (hy : HoldsInt y b) (h : |a * b| < 2 ^ 53) :
    HoldsInt (x * y) (a * b) := by
  have hprod := IsIntForm.mul hx hy h
  change IsIntForm (Float.Model.pack _).unpack _
  rw [hprod.unpack_pack]
  exact hprod

theorem HoldsInt.div_ofInt (hx : HoldsInt x a) {d : ℤ} (hd : d = 1 ∨ d = -1) :
    HoldsInt (x / Float.ofInt d) (a * d) := by
  have hd' : |d| < 2 ^ 53 := by rcases hd with rfl | rfl <;> norm_num
  have hquot := IsIntForm.div_unit hx hd
  change IsIntForm (Float.Model.pack (div .binary64 _ (Float.ofInt d).toModel.unpack)).unpack _
  rw [unpack_ofInt hd', hquot.unpack_pack]
  exact hquot

theorem ofInt_add (hy : HoldsInt y b) (ha : |a| < 2 ^ 53) (h : |a + b| < 2 ^ 53) :
    Float.ofInt a + y = Float.ofInt (a + b) := by
  apply eq_ofInt_of_unpack h
  change (Float.Model.pack (add .binary64 (Float.ofInt a).toModel.unpack y.toModel.unpack)).unpack = _
  rw [unpack_ofInt ha, add_intForm_left hy ha h]
  exact (isIntForm_intForm h).unpack_pack

theorem add_ofInt (hx : HoldsInt x a) (hb : |b| < 2 ^ 53) (h : |a + b| < 2 ^ 53) :
    x + Float.ofInt b = Float.ofInt (a + b) := by
  apply eq_ofInt_of_unpack h
  change (Float.Model.pack (add .binary64 x.toModel.unpack (Float.ofInt b).toModel.unpack)).unpack = _
  rw [unpack_ofInt hb, add_intForm_right hx hb h]
  exact (isIntForm_intForm h).unpack_pack

theorem ofInt_sub (hy : HoldsInt y b) (ha : |a| < 2 ^ 53) (h : |a - b| < 2 ^ 53) :
    Float.ofInt a - y = Float.ofInt (a - b) := by
  apply eq_ofInt_of_unpack h
  change (Float.Model.pack (sub .binary64 (Float.ofInt a).toModel.unpack y.toModel.unpack)).unpack = _
  rw [unpack_ofInt ha, sub_intForm_left hy ha h]
  exact (isIntForm_intForm h).unpack_pack

end Floats

section Bounds

/-- `x` holds the integer `n`, of magnitude at most `B`. Bounds add up through the operations,
so a computation whose bounds stay below `2 ^ 53` is exact from end to end. -/
structure HoldsIntLe (x : Float) (n B : ℤ) : Prop where
  holds : HoldsInt x n
  abs_le : |n| ≤ B

variable {x y : Float} {a b A B : ℤ}

theorem HoldsIntLe.nonneg (h : HoldsIntLe x a A) : 0 ≤ A := (abs_nonneg a).trans h.abs_le

theorem HoldsIntLe.mono (h : HoldsIntLe x a A) (hAB : A ≤ B) : HoldsIntLe x a B :=
  ⟨h.holds, h.abs_le.trans hAB⟩

theorem HoldsIntLe.add (hx : HoldsIntLe x a A) (hy : HoldsIntLe y b B) (h : A + B < 2 ^ 53) :
    HoldsIntLe (x + y) (a + b) (A + B) := by
  have hab : |a + b| ≤ A + B := (abs_add_le a b).trans (add_le_add hx.abs_le hy.abs_le)
  exact ⟨hx.holds.add hy.holds (hab.trans_lt h), hab⟩

theorem HoldsIntLe.sub (hx : HoldsIntLe x a A) (hy : HoldsIntLe y b B) (h : A + B < 2 ^ 53) :
    HoldsIntLe (x - y) (a - b) (A + B) := by
  have hab : |a - b| ≤ A + B := (abs_sub a b).trans (add_le_add hx.abs_le hy.abs_le)
  exact ⟨hx.holds.sub hy.holds (hab.trans_lt h), hab⟩

theorem HoldsIntLe.mul (hx : HoldsIntLe x a A) (hy : HoldsIntLe y b B) (h : A * B < 2 ^ 53) :
    HoldsIntLe (x * y) (a * b) (A * B) := by
  have hab : |a * b| ≤ A * B := by
    rw [abs_mul]
    exact mul_le_mul hx.abs_le hy.abs_le (abs_nonneg b) hx.nonneg
  exact ⟨hx.holds.mul hy.holds (hab.trans_lt h), hab⟩

theorem holdsIntLe_ofInt (h : |a| ≤ A) (hA : A < 2 ^ 53) : HoldsIntLe (Float.ofInt a) a A :=
  ⟨holdsInt_ofInt (h.trans_lt hA), h⟩

end Bounds

section Value

/-- The exact value of a finite float; infinities and NaN are given `0`. -/
def value (x : Float) : ℚ :=
  match x.toModel.unpack with
  | .finite s m e _ => (s.apply m : ℚ) * 2 ^ e
  | _ => 0

variable {x : Float} {a : ℤ}

theorem HoldsInt.value_eq (h : HoldsInt x a) : value x = a := by
  unfold value
  rcases IsIntForm.zero_or h with ⟨rfl, s, hx⟩ | ⟨ha, hx⟩
  · rw [hx]
    rfl
  · rw [hx, intForm_of_ne_zero ha]
    dsimp only
    have happly := apply_normalMantissa_shiftLeft (n := a) 0
    rw [Nat.shiftLeft_zero, add_zero] at happly
    rw [happly, Int.cast_mul, Int.cast_pow, Int.cast_ofNat, mul_assoc, ← zpow_natCast,
      ← zpow_add₀ (by norm_num)]
    have hl := log2_le_of_lt (natAbs_lt_of_abs_lt h.1)
    rw [show (((52 - a.natAbs.log2 : ℕ) : ℤ) + ((a.natAbs.log2 : ℤ) - 52)) = 0 by omega,
      zpow_zero, mul_one]

/-- A finite unpacked float has a normal mantissa of 53 bits and an exponent in range, or a
subnormal mantissa at the least exponent. -/
theorem unpack_finite_shape (v : Float.Model) {s : Sign} {m : ℕ} {e : ℤ} {hm : 0 < m}
    (hu : v.unpack = .finite s m e hm) :
    (m.log2 = 52 ∧ -1074 ≤ e ∧ e ≤ 971) ∨ (m < 2 ^ 52 ∧ e = -1074) := by
  unfold Float.Model.unpack UnpackedFloat.unpack at hu
  dsimp only at hu
  have hmant := (@unpackMantissa Format.binary64 v.toBits.toBitVec).isLt
  have hexp := (@unpackExponent Format.binary64 v.toBits.toBitVec).isLt
  have hbias : Format.binary64.exponentBias = 1023 := rfl
  split at hu
  · split at hu <;> cases hu
  · rename_i hmax
    split at hu
    · rename_i hzero
      split at hu
      · cases hu
      · cases hu
        refine .inr ⟨hmant, ?_⟩
        rw [hzero, hbias]
        rfl
    · rename_i hzero
      cases hu
      have he₀ : (@unpackExponent Format.binary64 v.toBits.toBitVec).toNat ≠ 0 :=
        fun h => hzero (BitVec.eq_of_toNat_eq h)
      have he₁ : (@unpackExponent Format.binary64 v.toBits.toBitVec).toNat ≠ 2047 :=
        fun h => hmax (BitVec.eq_of_toNat_eq h)
      have hfull : (1#1 ++ @unpackMantissa Format.binary64 v.toBits.toBitVec).toNat =
          2 ^ 52 + (@unpackMantissa Format.binary64 v.toBits.toBitVec).toNat := by
        rw [BitVec.toNat_append, ← Nat.shiftLeft_add_eq_or_of_lt hmant]
        rfl
      refine .inl ⟨?_, ?_, ?_⟩
      · rw [hfull, Nat.log2_eq_iff (by positivity)]
        change _ < 2 ^ 52 at hmant
        constructor <;> omega
      all_goals
        rw [hbias]
        change _ < 2 ^ 11 at hexp
        push_cast
        omega

theorem value_of_unpack {s : Sign} {m : ℕ} {e : ℤ} {hm : 0 < m}
    (hu : x.toModel.unpack = .finite s m e hm) : value x = (s.apply m : ℚ) * 2 ^ e := by
  simp only [value, hu]

theorem subnormal_lt_half {m : ℕ} (hsub : m < 2 ^ 52) : (m : ℚ) * 2 ^ (-1074 : ℤ) < 1 / 2 := by
  have hm' : (m : ℚ) < 2 ^ 52 := by exact_mod_cast hsub
  calc (m : ℚ) * 2 ^ (-1074 : ℤ) < 2 ^ 52 * 2 ^ (-1074 : ℤ) := by gcongr
    _ = 2 ^ (-1022 : ℤ) := by rw [← zpow_natCast, ← zpow_add₀ (by norm_num)]; norm_num
    _ < 2 ^ (-1 : ℤ) := zpow_lt_zpow_right₀ (by norm_num) (by norm_num)
    _ = 1 / 2 := by norm_num

/-- A normal magnitude `m · 2 ^ e` lies below `2 ^ k` exactly when its exponent lies below
`k - 52`, since the mantissa lies in `[2 ^ 52, 2 ^ 53)`. -/
theorem normal_lt_two_zpow_iff {m : ℕ} {e : ℤ} (k : ℤ) (h₁ : 2 ^ 52 ≤ m) (h₂ : m < 2 ^ 53) :
    (m : ℚ) * 2 ^ e < 2 ^ k ↔ e < k - 52 := by
  have hm₁ : (2 : ℚ) ^ (52 : ℤ) ≤ m := by exact_mod_cast h₁
  have hm₂ : (m : ℚ) < 2 ^ (53 : ℤ) := by exact_mod_cast h₂
  constructor
  · intro h
    by_contra hge
    have hk : (2 : ℚ) ^ k ≤ m * 2 ^ e :=
      calc (2 : ℚ) ^ k = 2 ^ (52 : ℤ) * 2 ^ (k - 52) := by
            rw [← zpow_add₀ two_ne_zero, add_sub_cancel]
        _ ≤ m * 2 ^ e :=
          mul_le_mul hm₁ (zpow_le_zpow_right₀ one_le_two (by omega)) (by positivity)
            (by positivity)
    linarith
  · intro he
    calc (m : ℚ) * 2 ^ e < 2 ^ (53 : ℤ) * 2 ^ e := by gcongr
      _ ≤ 2 ^ (53 : ℤ) * 2 ^ (k - 53) :=
        mul_le_mul_of_nonneg_left (zpow_le_zpow_right₀ one_le_two (by omega)) (by positivity)
      _ = 2 ^ k := by rw [← zpow_add₀ two_ne_zero, add_sub_cancel]

theorem normal_lt_one_iff {m : ℕ} {e : ℤ} (h₁ : 2 ^ 52 ≤ m) (h₂ : m < 2 ^ 53) :
    (m : ℚ) * 2 ^ e < 1 ↔ e < -52 := by
  simpa using normal_lt_two_zpow_iff 0 h₁ h₂

/-- An integer that is `± m · 2 ^ -t` for a normal mantissa `m` has the normal form
`(±, m, -t)`. -/
theorem intForm_of_normal {s : Sign} {m t : ℕ} (hm : 0 < m) (hlog : m.log2 = 52)
    (hint : s.apply m = a * 2 ^ t) : intForm a = .finite s m (-t) hm := by
  have hmabs : m = a.natAbs * 2 ^ t := by
    have := congrArg Int.natAbs hint
    rw [Int.natAbs_mul, Int.natAbs_pow] at this
    cases s <;> simpa [Sign.apply] using this
  have ha₀ : a ≠ 0 := by
    rintro rfl
    simp only [Int.natAbs_zero, zero_mul] at hmabs
    omega
  have hlog' : a.natAbs.log2 + t = 52 := by
    rw [← log2_shiftLeft (Int.natAbs_ne_zero.mpr ha₀), Nat.shiftLeft_eq, ← hmabs, hlog]
  have hsign : intSign a = s := by
    unfold intSign
    cases s
    · have : a * 2 ^ t < 0 := by rw [← hint]; simp [Sign.apply]; omega
      simp [neg_of_mul_neg_left this (by positivity)]
    · have : 0 < a * 2 ^ t := by rw [← hint]; simp [Sign.apply]; omega
      simp [(pos_of_mul_pos_left this (by positivity)).not_gt]
  have hmant : normalMantissa a.natAbs = m := by
    rw [normalMantissa, Nat.shiftLeft_eq, hmabs]
    congr 2
    omega
  have hexp : (a.natAbs.log2 : ℤ) - 52 = -t := by omega
  rw [intForm_of_ne_zero ha₀]
  simp only [hsign, hmant, hexp]

/-- A finite float whose value is an integer below `2 ^ 53` holds that integer. -/
theorem holdsInt_of_value (hfin : x.isFinite = true) (hv : value x = a) (ha : |a| < 2 ^ 53) :
    HoldsInt x a := by
  unfold HoldsInt
  change x.toModel.unpack.isFinite = true at hfin
  cases hu : x.toModel.unpack with
  | notANumber => rw [hu] at hfin; cases hfin
  | infinity s => rw [hu] at hfin; cases hfin
  | zero s =>
    obtain rfl : a = 0 := by
      have : (a : ℚ) = 0 := by rw [← hv]; simp only [value, hu]
      exact_mod_cast this
    exact isIntForm_zero s
  | finite s m e hm =>
    rw [value_of_unpack hu] at hv
    have habs : (m : ℚ) * 2 ^ e = |(a : ℚ)| := by
      rw [← hv, abs_mul, abs_of_pos (zpow_pos (by norm_num : (0 : ℚ) < 2) e)]
      cases s <;> simp [Sign.apply]
    have ha₀ : a ≠ 0 := by
      rintro rfl
      have : (0 : ℚ) < m * 2 ^ e := by positivity
      simp [habs] at this
    have hge : 1 ≤ (m : ℚ) * 2 ^ e := by rw [habs]; exact_mod_cast Int.one_le_abs ha₀
    have hlt : (m : ℚ) * 2 ^ e < 2 ^ (53 : ℤ) := by rw [habs]; exact_mod_cast ha
    rcases unpack_finite_shape x.toModel hu with ⟨hlog, -, -⟩ | ⟨hsub, rfl⟩
    · -- a normal float: its exponent lies in `[-52, 0]`, so the value is `±m / 2 ^ t`
      obtain ⟨h₁, h₂⟩ := mantissa_bounds_of_log2 hm hlog
      have he₁ : ¬e < -52 := fun h => absurd ((normal_lt_one_iff h₁ h₂).mpr h) (not_lt.mpr hge)
      have he₀ : e < 1 := by simpa using (normal_lt_two_zpow_iff 53 h₁ h₂).mp hlt
      obtain ⟨t, rfl⟩ : ∃ t : ℕ, e = -t := ⟨(-e).toNat, by omega⟩
      have hint : s.apply m = a * 2 ^ t := by
        have : ((s.apply m : ℤ) : ℚ) = a * 2 ^ t := by
          rw [← hv, zpow_neg, zpow_natCast, mul_assoc, inv_mul_cancel₀ (by positivity), mul_one]
        exact_mod_cast this
      exact ⟨ha, .inl (intForm_of_normal hm hlog hint).symm⟩
    · -- a subnormal magnitude is below one
      exact absurd ((subnormal_lt_half hsub).trans (by norm_num)) (not_lt.mpr hge)

end Value

section Words

theorem word_of_unpack_normal {x : Float} {s : Sign} {m : ℕ} {e : ℤ} {hm : 0 < m}
    (hx : x.toModel.unpack = .finite s m e hm) (hlog : m.log2 = 52) (he : -1074 ≤ e)
    (he' : e ≤ 971) :
    word x = (s.toBitVec.toNat * 2 ^ 11 + (e + 1075).toNat) * 2 ^ 52 + m % 2 ^ 52 := by
  have hbits : x.toModel.toBits.toBitVec = UnpackedFloat.pack .binary64 (.finite s m e hm) := by
    rw [← hx]
    exact (pack_unpack_of_valid x.toModel.valid).symm
  have hbias : Format.binary64.exponentBias = 1023 := rfl
  have hmb : Format.binary64.mantissaBits = 53 := rfl
  change x.toModel.toBits.toBitVec.toNat = _
  rw [hbits]
  simp only [UnpackedFloat.pack, hbias, hmb, hlog, Nat.cast_ofNat]
  rw [if_neg (by omega), if_pos trivial]
  simp only [packComponents, BitVec.toNat_append]
  have hexp : (BitVec.ofNat 11 (e + 1023 + 52).toNat).toNat = (e + 1075).toNat := by
    rw [BitVec.toNat_ofNat, Nat.mod_eq_of_lt (by norm_num; omega)]
    omega
  rw [hexp, BitVec.toNat_ofNat,
    ← Nat.shiftLeft_add_eq_or_of_lt (show (e + 1075).toNat < 2 ^ 11 by norm_num; omega),
    ← Nat.shiftLeft_add_eq_or_of_lt (Nat.mod_lt _ (by positivity)), Nat.shiftLeft_eq,
    Nat.shiftLeft_eq]

theorem word_of_unpack_zero {x : Float} {s : Sign} (hx : x.toModel.unpack = .zero s) :
    word x = s.toBitVec.toNat * 2 ^ 63 := by
  have hbits : x.toModel.toBits.toBitVec = UnpackedFloat.pack .binary64 (.zero s) := by
    rw [← hx]
    exact (pack_unpack_of_valid x.toModel.valid).symm
  change x.toModel.toBits.toBitVec.toNat = _
  rw [hbits]
  simp only [UnpackedFloat.pack, packedZero, packComponents]
  rw [BitVec.toNat_append, BitVec.toNat_append]
  simp [Nat.shiftLeft_eq]
  ring

theorem roundHalfEvenWord_of_dvd {w : ℕ} (hE : bias ≤ exponentField w)
    (hdvd : exponentField w - bias < 52 → 2 ^ (52 - (exponentField w - bias)) ∣ w) :
    roundHalfEvenWord w = w := by
  unfold roundHalfEvenWord
  rw [if_pos hE]
  by_cases hk : exponentField w - bias < fractionWidth
  · rw [if_pos hk]
    simp only [fractionWidth, Nat.pow_eq] at hk ⊢
    set k := exponentField w - bias
    have hc : (2 ^ (52 - 1) - 1 + w / 2 ^ (52 - k) % 2) / 2 ^ k < 2 ^ (52 - k) := by
      have hp : w / 2 ^ (52 - k) % 2 < 2 := Nat.mod_lt _ (by norm_num)
      have h51 : 2 ^ (52 - 1) - 1 + w / 2 ^ (52 - k) % 2 ≤ 2 ^ 51 := by norm_num; omega
      calc (2 ^ (52 - 1) - 1 + w / 2 ^ (52 - k) % 2) / 2 ^ k ≤ 2 ^ 51 / 2 ^ k :=
            Nat.div_le_div_right h51
        _ = 2 ^ (51 - k) := Nat.pow_div (by omega) (by norm_num)
        _ < 2 ^ (52 - k) := Nat.pow_lt_pow_right (by norm_num) (by omega)
    have hw : w % 2 ^ (52 - k) = 0 := Nat.mod_eq_zero_of_dvd (hdvd hk)
    set carry := (2 ^ (52 - 1) - 1 + w / 2 ^ (52 - k) % 2) / 2 ^ k
    rw [Nat.add_mod, hw, zero_add, Nat.mod_mod, Nat.mod_eq_of_lt hc, Nat.add_sub_cancel]
  · rw [if_neg hk]

theorem exponentField_eq {sb E F : ℕ} (hE : E < 2 ^ 11) (hF : F < 2 ^ 52) :
    exponentField ((sb * 2 ^ 11 + E) * 2 ^ 52 + F) = E := by
  unfold exponentField
  simp only [fractionWidth, Nat.pow_eq]
  rw [mul_comm, Nat.mul_add_div (by positivity), Nat.div_eq_of_lt hF, add_zero, Nat.mul_add_mod',
    Nat.mod_eq_of_lt hE]

theorem ofWord_word (x : Float) : ofWord (word x) = x := by
  unfold ofWord word
  rw [show x.toBits.toNat.toUInt64 = x.toBits from UInt64.ofNat_toNat]
  exact Float.ofBits_toBits x

/-- Rounding to the nearest integer leaves a float that holds an integer as it is, with the sign
of a zero. -/
theorem roundHalfEven_of_holdsInt {x : Float} {a : ℤ} (h : HoldsInt x a) :
    roundHalfEven x = x := by
  suffices hw : roundHalfEvenWord (word x) = word x by
    rw [roundHalfEven, hw, ofWord_word]
  rcases IsIntForm.zero_or h with ⟨-, s, hx⟩ | ⟨ha, hx⟩
  · have hs : s.toBitVec.toNat < 2 := s.toBitVec.isLt
    have hw : word x = (s.toBitVec.toNat * 2 ^ 11 + 0) * 2 ^ 52 + 0 := by
      rw [word_of_unpack_zero hx]
      ring
    have he : exponentField (word x) = 0 := by
      rw [hw]
      exact exponentField_eq (by norm_num) (by norm_num)
    unfold roundHalfEvenWord
    rw [if_neg (by rw [he]; decide), if_neg (by rw [he]; simp [bias])]
    unfold signedZero signBit
    rw [word_of_unpack_zero hx]
    simp only [Nat.pow_eq]
    rw [Nat.mul_div_cancel _ (by positivity), Nat.mod_eq_of_lt hs]
  · have hN := natAbs_lt_of_abs_lt h.1
    have hl := log2_le_of_lt hN
    have hpos := Int.natAbs_pos.mpr ha
    rw [intForm_of_ne_zero ha] at hx
    have hw := word_of_unpack_normal hx (log2_normalMantissa hpos hN) (by omega) (by omega)
    have he : exponentField (word x) = a.natAbs.log2 + 1023 := by
      rw [hw, exponentField_eq (by norm_num; omega) (Nat.mod_lt _ (by positivity))]
      omega
    apply roundHalfEvenWord_of_dvd (by rw [he]; unfold bias; omega)
    intro hk
    rw [he, show a.natAbs.log2 + 1023 - bias = a.natAbs.log2 by unfold bias; omega, hw]
    have hunit : 2 ^ (52 - a.natAbs.log2) ∣ 2 ^ 52 := pow_dvd_pow 2 (by omega)
    refine Dvd.dvd.add (Dvd.dvd.mul_left hunit _) ((Nat.dvd_mod_iff hunit).mpr ?_)
    rw [normalMantissa, Nat.shiftLeft_eq]
    exact Dvd.intro_left _ rfl

end Words

end CrystalLattice.Binary64

