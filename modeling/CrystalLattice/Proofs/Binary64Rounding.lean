import Mathlib
import CrystalLattice.Proofs.Binary64Order

/-!
# Rounding to nearest in binary64

`roundPositive` rounds a positive rational at its rounding exponent, to nearest with ties to
even; the model's rounding is it, and it is monotone. Sums, differences and products of finite
floats of non-negative value round from their exact values (`RoundsFrom`).
-/

namespace CrystalLattice.Binary64

open Float.Model Float.Model.UnpackedFloat

section Nearest

/-- A non-negative rational rounded to a natural number, to nearest with ties to even. -/
def nearestEven (x : ℚ) : ℕ :=
  if x - ⌊x⌋₊ < 1 / 2 then ⌊x⌋₊
  else if 1 / 2 < x - ⌊x⌋₊ then ⌊x⌋₊ + 1
  else ⌊x⌋₊ + ⌊x⌋₊ % 2

theorem floor_le_nearestEven (x : ℚ) : ⌊x⌋₊ ≤ nearestEven x := by
  unfold nearestEven
  split_ifs <;> omega

theorem nearestEven_le_floor_add_one (x : ℚ) : nearestEven x ≤ ⌊x⌋₊ + 1 := by
  unfold nearestEven
  split_ifs <;> omega

@[simp] theorem nearestEven_natCast (n : ℕ) : nearestEven n = n := by
  simp [nearestEven]

theorem nearestEven_mono {x y : ℚ} (hxy : x ≤ y) : nearestEven x ≤ nearestEven y := by
  have hq : ⌊x⌋₊ ≤ ⌊y⌋₊ := Nat.floor_le_floor hxy
  rcases hq.lt_or_eq with hlt | heq
  · calc nearestEven x ≤ ⌊x⌋₊ + 1 := nearestEven_le_floor_add_one x
      _ ≤ ⌊y⌋₊ := hlt
      _ ≤ nearestEven y := floor_le_nearestEven y
  · -- one integer part: the fractional parts decide, in the same order as `x` and `y`
    have hfrac : x - ⌊x⌋₊ ≤ y - ⌊y⌋₊ := by
      rw [heq]
      linarith
    unfold nearestEven
    rw [heq] at hfrac ⊢
    split_ifs <;> first | omega | (exfalso; linarith)

end Nearest

section Shifts

/-- Shifting an exact mantissa right keeps the quotient, and in its residual bits the first bit
shifted out and whether any other was set. -/
theorem shiftRight_exact (N k : ℕ) :
    (ExtendedMantissa.mk N false false >>> (k + 1)) =
      ⟨N / 2 ^ (k + 1), N / 2 ^ k % 2 != 0, decide (N % 2 ^ k ≠ 0)⟩ := by
  induction k with
  | zero =>
    change ExtendedMantissa.shiftRightOne ⟨N, false, false⟩ = _
    simp [ExtendedMantissa.shiftRightOne, Nat.mod_one]
  | succ k ih =>
    change ExtendedMantissa.shiftRightOne (ExtendedMantissa.mk N false false >>> (k + 1)) = _
    rw [ih, ExtendedMantissa.shiftRightOne]
    simp only [Nat.div_div_eq_div_mul, ← pow_succ]
    congr 1
    rw [Nat.mod_pow_succ]
    rcases Nat.mod_two_eq_zero_or_one (N / 2 ^ k) with h | h <;> simp [h]

theorem natFloor_div_two_pow (N k : ℕ) : ⌊(N : ℚ) / 2 ^ k⌋₊ = N / 2 ^ k := by
  have h := (Nat.floor_div_eq_div N (2 ^ k) : ⌊(N : ℚ) / ((2 ^ k : ℕ) : ℚ)⌋₊ = _)
  rwa [Nat.cast_pow, Nat.cast_ofNat] at h

theorem div_two_pow_sub_floor (N k : ℕ) :
    (N : ℚ) / 2 ^ (k + 1) - (N / 2 ^ (k + 1) : ℕ) = (N % 2 ^ (k + 1) : ℕ) / (2 * 2 ^ k) := by
  have hN : (2 : ℚ) ^ (k + 1) * (N / 2 ^ (k + 1) : ℕ) + (N % 2 ^ (k + 1) : ℕ) = N := by
    exact_mod_cast Nat.div_add_mod N (2 ^ (k + 1))
  have h2 : (2 : ℚ) ^ (k + 1) = 2 * 2 ^ k := by ring
  rw [← hN, h2]
  field_simp
  ring

theorem div_two_mul_two_pow_lt_half_iff (r k : ℕ) :
    (r : ℚ) / (2 * 2 ^ k) < 1 / 2 ↔ r < 2 ^ k := by
  rw [div_lt_iff₀ (by positivity), show (1 / 2 : ℚ) * (2 * 2 ^ k) = ((2 ^ k : ℕ) : ℚ) by
    push_cast; ring]
  exact Nat.cast_lt

theorem half_lt_div_two_mul_two_pow_iff (r k : ℕ) :
    1 / 2 < (r : ℚ) / (2 * 2 ^ k) ↔ 2 ^ k < r := by
  rw [lt_div_iff₀ (by positivity), show (1 / 2 : ℚ) * (2 * 2 ^ k) = ((2 ^ k : ℕ) : ℚ) by
    push_cast; ring]
  exact Nat.cast_lt

/-- Rounding an exact mantissa shifted right by `k` rounds `N / 2 ^ k` to nearest. -/
theorem roundedMantissa_shiftRight (N k : ℕ) :
    (ExtendedMantissa.mk N false false >>> k).roundedMantissa = nearestEven (N / 2 ^ k) := by
  cases k with
  | zero =>
    change (ExtendedMantissa.mk N false false).roundedMantissa = _
    simp [ExtendedMantissa.roundedMantissa, ExtendedMantissa.accuracy,
      Accuracy.roundToNearestEven]
  | succ k =>
    rw [shiftRight_exact]
    have hr : N % 2 ^ (k + 1) = N % 2 ^ k + 2 ^ k * (N / 2 ^ k % 2) := Nat.mod_pow_succ
    have hNk : N % 2 ^ k < 2 ^ k := Nat.mod_lt _ (by positivity)
    unfold nearestEven
    simp only [natFloor_div_two_pow, div_two_pow_sub_floor, div_two_mul_two_pow_lt_half_iff,
      half_lt_div_two_mul_two_pow_iff]
    rcases Nat.mod_two_eq_zero_or_one (N / 2 ^ k) with hb | hb <;>
      by_cases hs : N % 2 ^ k = 0 <;>
      simp [ExtendedMantissa.roundedMantissa, ExtendedMantissa.accuracy,
        Accuracy.roundToNearestEven, hb, hs, hr]
    omega

end Shifts

section Rounding

/-- The exponent at which binary64 rounds a positive value: 53 bits below its leading bit, but
not below the least subnormal exponent. -/
def roundingExponent (v : ℚ) : ℤ := Format.binary64.targetExponent (Int.log 2 v + 1)

/-- The float of a mantissa `r ≤ 2 ^ 53` just rounded at exponent `e`: zero, or `r` at `e`, or
after a carry out of the 53 bits, `2 ^ 52` at the next exponent. -/
def ofRounded (r : ℕ) (e : ℤ) : UnpackedFloat :=
  if h : r = 0 then .zero .positive
  else if r < 2 ^ 53 then .finite .positive r e (Nat.pos_of_ne_zero h)
  else .finite .positive (2 ^ 52) (e + 1) (by positivity)

/-- A positive value rounded to nearest, ties to even, at its rounding exponent. -/
def roundPositive (v : ℚ) : UnpackedFloat :=
  ofRounded (nearestEven (v / 2 ^ roundingExponent v)) (roundingExponent v)

theorem log_mul_zpow {P : ℕ} (hP : 0 < P) (E : ℤ) : Int.log 2 ((P : ℚ) * 2 ^ E) = P.log2 + E := by
  have hv : (0 : ℚ) < P * 2 ^ E := by positivity
  have hlo : (2 : ℚ) ^ ((P.log2 : ℤ) + E) ≤ P * 2 ^ E := by
    rw [zpow_add₀ (by norm_num), zpow_natCast]
    gcongr
    exact_mod_cast Nat.log2_self_le hP.ne'
  have hhi : (P : ℚ) * 2 ^ E < 2 ^ ((P.log2 : ℤ) + E + 1) := by
    rw [add_right_comm, zpow_add₀ (by norm_num), ← Nat.cast_succ, zpow_natCast]
    gcongr
    exact_mod_cast Nat.lt_log2_self
  have h₁ : (P.log2 : ℤ) + E ≤ Int.log 2 ((P : ℚ) * 2 ^ E) :=
    (Int.zpow_le_iff_le_log (show 1 < 2 by norm_num) hv).mp (by exact_mod_cast hlo)
  have h₂ : Int.log 2 ((P : ℚ) * 2 ^ E) < P.log2 + E + 1 :=
    (Int.lt_zpow_iff_log_lt (show 1 < 2 by norm_num) hv).mp (by exact_mod_cast hhi)
  omega

theorem roundingExponent_mul_zpow {P : ℕ} (hP : 0 < P) (E : ℤ) :
    roundingExponent (P * 2 ^ E) = Format.binary64.targetExponent (totalExponent P E) := by
  rw [roundingExponent, log_mul_zpow hP, totalExponent]
  ring_nf

theorem roundingExponent_ge (v : ℚ) : Int.log 2 v + 1 - 53 ≤ roundingExponent v := le_max_left ..

theorem roundingExponent_ge_min (v : ℚ) : -1074 ≤ roundingExponent v := le_max_right ..

theorem div_zpow_roundingExponent_lt (v : ℚ) : v / 2 ^ roundingExponent v < 2 ^ 53 := by
  have hv : v < 2 ^ (Int.log 2 v + 1) := by
    exact_mod_cast Int.lt_zpow_succ_log_self (show 1 < 2 by norm_num) v
  rw [div_lt_iff₀ (by positivity), ← zpow_natCast, ← zpow_add₀ (by norm_num)]
  calc v < 2 ^ (Int.log 2 v + 1) := hv
    _ ≤ 2 ^ ((53 : ℕ) + roundingExponent v) := by
      apply zpow_le_zpow_right₀ (by norm_num)
      have := roundingExponent_ge v
      omega

/-- Above the subnormal range a value has at least 53 bits before the point at its rounding
exponent. -/
theorem two_pow_le_div_zpow_roundingExponent {v : ℚ} (hv : 0 < v)
    (he : -1074 < roundingExponent v) : 2 ^ 52 ≤ v / 2 ^ roundingExponent v := by
  have hlog : roundingExponent v = Int.log 2 v - 52 := by
    have : roundingExponent v = max (Int.log 2 v + 1 - 53) (-1074) := rfl
    omega
  have hv' : (2 : ℚ) ^ Int.log 2 v ≤ v := by
    exact_mod_cast Int.zpow_log_le_self (show 1 < 2 by norm_num) hv
  rw [le_div_iff₀ (by positivity), ← zpow_natCast, ← zpow_add₀ (by norm_num), hlog]
  calc (2 : ℚ) ^ ((52 : ℕ) + (Int.log 2 v - 52)) = 2 ^ Int.log 2 v := by
        congr 1
        omega
    _ ≤ v := hv'

theorem nearestEven_le_two_pow (v : ℚ) : nearestEven (v / 2 ^ roundingExponent v) ≤ 2 ^ 53 := by
  have h := nearestEven_mono (div_zpow_roundingExponent_lt v).le
  rwa [show ((2 : ℚ) ^ 53) = ((2 ^ 53 : ℕ) : ℚ) by push_cast; rfl, nearestEven_natCast] at h

theorem roundWithAccuracy_positive {P : ℕ} (hP : 0 < P) {E : ℤ}
    (hE : E ≤ Format.binary64.targetExponent (totalExponent P E)) :
    roundWithAccuracy .binary64 .positive P E .exact = roundPositive (P * 2 ^ E) := by
  have hte := roundingExponent_mul_zpow hP E
  set te := Format.binary64.targetExponent (totalExponent P E) with htedef
  have htarget : Format.binary64.targetExponent (totalExponent P E) =
      max ((P.log2 : ℤ) + 1 + E - 53) (-1074) := rfl
  obtain ⟨k, hk⟩ : ∃ k : ℕ, te = E + k := ⟨(te - E).toNat, by omega⟩
  have hr : (ExtendedMantissa.ofMantissaAndAccuracy P .exact >>> k).roundedMantissa =
      nearestEven (P * 2 ^ E / 2 ^ te) := by
    rw [ExtendedMantissa.ofMantissaAndAccuracy, roundedMantissa_shiftRight, hk,
      zpow_add₀ (by norm_num), zpow_natCast]
    congr 1
    field_simp
  have hk' : (max ((P.log2 : ℤ) + 1 + E - 53) (-1074) - E).toNat = k := by omega
  have hfirst : shiftToTargetExponent .binary64 P E .exact =
      (ExtendedMantissa.ofMantissaAndAccuracy P .exact >>> k, te) := by
    rw [shiftToTargetExponent_binary64, hk', hk]
  rw [roundWithAccuracy_binary64 .positive hfirst, hr, roundPositive, hte]
  rfl

theorem round_positive {P : ℕ} (hP : 0 < P) (E : ℤ) :
    UnpackedFloat.round .binary64 .positive P E = roundPositive (P * 2 ^ E) := by
  unfold UnpackedFloat.round decreaseExponent
  dsimp only
  set te := Format.binary64.targetExponent (totalExponent P E)
  set d := (E - te).toNat with hd
  have hpos : 0 < P <<< d := by
    rw [Nat.shiftLeft_eq]
    positivity
  have hval : ((P <<< d : ℕ) : ℚ) * 2 ^ (E - d) = P * 2 ^ E := by
    rw [Nat.shiftLeft_eq, Nat.cast_mul, Nat.cast_pow, Nat.cast_ofNat, mul_assoc, ← zpow_natCast,
      ← zpow_add₀ (by norm_num), add_sub_cancel]
  have htot : totalExponent (P <<< d) (E - d) = totalExponent P E := by
    simp only [totalExponent, log2_shiftLeft hP.ne']
    push_cast
    ring
  rw [roundWithAccuracy_positive hpos (by rw [htot]; omega), hval]

end Rounding

section Packing

theorem unpack_pack_subnormal (s : Sign) {m : ℕ} (hm : 0 < m) (hm52 : m < 2 ^ 52) :
    (Float.Model.pack (.finite s m (-1074) hm)).unpack = .finite s m (-1074) hm := by
  have hlog : m.log2 < 52 := (Nat.log2_lt hm.ne').mpr hm52
  have hfit : (BitVec.ofNat 52 m).toNat = m := by
    rw [BitVec.toNat_ofNat, Nat.mod_eq_of_lt hm52]
  have hne : BitVec.ofNat 52 m ≠ 0#52 := by
    intro h
    rw [h] at hfit
    simp at hfit
    omega
  have hbias : Format.binary64.exponentBias = 1023 := rfl
  have hbits : Format.binary64.mantissaBits = 53 := rfl
  unfold Float.Model.unpack Float.Model.pack
  simp only [UnpackedFloat.pack, hbias, hbits]
  rw [if_neg (by decide), if_neg (by omega)]
  simp only [UnpackedFloat.unpack, unpackExponent_packComponents, unpackMantissa_packComponents,
    unpackSign_packComponents, Sign.ofBitVec_toBitVec, hne, hfit, hbias]
  rfl

theorem unpack_pack_infinity (s : Sign) :
    UnpackedFloat.unpack .binary64 (UnpackedFloat.pack .binary64 (.infinity s)) = .infinity s := by
  simp only [UnpackedFloat.pack, packedInfinity, UnpackedFloat.unpack,
    unpackExponent_packComponents, unpackMantissa_packComponents, unpackSign_packComponents,
    Sign.ofBitVec_toBitVec]
  simp

theorem unpack_pack_overflow (s : Sign) {m : ℕ} (hm : 0 < m) {e : ℤ} (he : 972 ≤ e) :
    (Float.Model.pack (.finite s m e hm)).unpack = .infinity s := by
  have hbias : Format.binary64.exponentBias = 1023 := rfl
  have hbits : UnpackedFloat.pack .binary64 (.finite s m e hm) =
      UnpackedFloat.pack .binary64 (.infinity s) := by
    simp only [UnpackedFloat.pack, hbias]
    rw [if_pos (by push_cast; omega)]
  change UnpackedFloat.unpack .binary64 (UnpackedFloat.pack .binary64 (.finite s m e hm)) = _
  rw [hbits]
  exact unpack_pack_infinity s

/-- A positive float of at most 53 bits at an exponent in range, normal unless at the least
exponent, packs to itself below the largest exponent and to infinity above it. -/
theorem sortKey_unpack_pack_positive {m : ℕ} (hm : 0 < m) (hm53 : m < 2 ^ 53) {e : ℤ}
    (he : -1074 ≤ e) (hshape : e = -1074 ∨ 2 ^ 52 ≤ m) :
    sortKey (Float.Model.pack (.finite .positive m e hm)).unpack =
      if e ≤ 971 then toLex (3, toLex (e, (m : ℤ))) else toLex (4, toLex (0, 0)) := by
  split_ifs with he'
  · rcases lt_or_ge m (2 ^ 52) with hsub | hnorm
    · obtain rfl : e = -1074 := hshape.resolve_right (by omega)
      rw [unpack_pack_subnormal _ hm hsub]
      rfl
    · have hlog : m.log2 = 52 := (Nat.log2_eq_iff hm.ne').mpr ⟨hnorm, hm53⟩
      rw [unpack_pack_normal _ hm hlog he he']
      rfl
  · rw [unpack_pack_overflow _ hm (by omega)]
    rfl

theorem sortKey_pack_ofRounded {r : ℕ} {e : ℤ} (hr : r ≤ 2 ^ 53) (he : -1074 ≤ e)
    (hshape : e = -1074 ∨ 2 ^ 52 ≤ r) :
    sortKey (Float.Model.pack (ofRounded r e)).unpack =
      if r = 0 then toLex (2, toLex (0, 0))
      else if r < 2 ^ 53 then
        (if e ≤ 971 then toLex (3, toLex (e, (r : ℤ))) else toLex (4, toLex (0, 0)))
      else if e + 1 ≤ 971 then toLex (3, toLex (e + 1, 2 ^ 52)) else toLex (4, toLex (0, 0)) := by
  unfold ofRounded
  rcases Nat.eq_zero_or_pos r with rfl | hpos
  · simp only [dif_pos, if_pos]
    rw [unpack_pack_zero]
    rfl
  simp only [dif_neg hpos.ne', if_neg hpos.ne']
  by_cases h53 : r < 2 ^ 53
  · simp only [if_pos h53]
    exact sortKey_unpack_pack_positive _ h53 he hshape
  · simp only [if_neg h53]
    rw [sortKey_unpack_pack_positive _ (by norm_num) (by omega) (.inr le_rfl)]
    push_cast
    rfl

section Mono

variable {r r' : ℕ} {e e' : ℤ}

theorem sortKey_pack_ofRounded_mono (hrr : r ≤ r') (hr' : r' ≤ 2 ^ 53) (he : -1074 ≤ e)
    (hshape : e = -1074 ∨ 2 ^ 52 ≤ r) :
    sortKey (Float.Model.pack (ofRounded r e)).unpack ≤
      sortKey (Float.Model.pack (ofRounded r' e)).unpack := by
  rw [sortKey_pack_ofRounded (hrr.trans hr') he hshape,
    sortKey_pack_ofRounded hr' he (hshape.imp_right (le_trans · hrr))]
  split_ifs <;> simp [Prod.Lex.toLex_le_toLex] <;> omega

theorem sortKey_pack_ofRounded_carry_le (h : e < e') (he : -1074 ≤ e) :
    sortKey (Float.Model.pack (ofRounded (2 ^ 53) e)).unpack ≤
      sortKey (Float.Model.pack (ofRounded (2 ^ 52) e')).unpack := by
  rw [sortKey_pack_ofRounded le_rfl he (.inr (by norm_num)),
    sortKey_pack_ofRounded (by norm_num) (by omega) (.inr le_rfl)]
  split_ifs <;> simp [Prod.Lex.toLex_le_toLex] <;> omega

end Mono

end Packing

section Monotone

variable {v w : ℚ}

theorem roundingExponent_mono (hv : 0 < v) (hvw : v ≤ w) :
    roundingExponent v ≤ roundingExponent w := by
  have hlog : Int.log 2 v ≤ Int.log 2 w := Int.log_mono_right hv hvw
  simp only [roundingExponent, Format.targetExponent]
  omega

theorem roundPositive_shape (hv : 0 < v) :
    roundingExponent v = -1074 ∨ 2 ^ 52 ≤ nearestEven (v / 2 ^ roundingExponent v) := by
  rcases (roundingExponent_ge_min v).eq_or_lt with h | h
  · exact .inl h.symm
  · refine .inr ?_
    have hmono := nearestEven_mono (two_pow_le_div_zpow_roundingExponent hv h)
    rwa [show ((2 : ℚ) ^ 52) = ((2 ^ 52 : ℕ) : ℚ) by push_cast; rfl, nearestEven_natCast] at hmono

/-- Rounding to nearest is monotone: a larger value rounds to a float that is not smaller. -/
theorem sortKey_pack_roundPositive_mono (hv : 0 < v) (hvw : v ≤ w) :
    sortKey (Float.Model.pack (roundPositive v)).unpack ≤
      sortKey (Float.Model.pack (roundPositive w)).unpack := by
  have hw : 0 < w := hv.trans_le hvw
  unfold roundPositive
  rcases (roundingExponent_mono hv hvw).lt_or_eq with hlt | heq
  · -- at a higher exponent `w` has a normal mantissa, while `v` stays below a carry
    have hnormal : 2 ^ 52 ≤ nearestEven (w / 2 ^ roundingExponent w) :=
      (roundPositive_shape hw).resolve_left (by have := roundingExponent_ge_min v; omega)
    calc _ ≤ sortKey (Float.Model.pack (ofRounded (2 ^ 53) (roundingExponent v))).unpack :=
          sortKey_pack_ofRounded_mono (nearestEven_le_two_pow v) le_rfl
            (roundingExponent_ge_min v) (roundPositive_shape hv)
      _ ≤ sortKey (Float.Model.pack (ofRounded (2 ^ 52) (roundingExponent w))).unpack :=
          sortKey_pack_ofRounded_carry_le hlt (roundingExponent_ge_min v)
      _ ≤ _ := sortKey_pack_ofRounded_mono hnormal (nearestEven_le_two_pow w)
            (roundingExponent_ge_min w) (.inr le_rfl)
  · -- at one exponent the rounded mantissas are in order
    rw [← heq]
    refine sortKey_pack_ofRounded_mono (nearestEven_mono ?_) (heq ▸ nearestEven_le_two_pow w)
      (roundingExponent_ge_min v) (roundPositive_shape hv)
    exact div_le_div_of_nonneg_right hvw (by positivity)

theorem sortKey_pack_roundPositive_bounds (hw : 0 < w) :
    toLex (2, toLex (0, 0)) ≤ sortKey (Float.Model.pack (roundPositive w)).unpack ∧
      sortKey (Float.Model.pack (roundPositive w)).unpack ≤ toLex (4, toLex (0, 0)) := by
  unfold roundPositive
  rw [sortKey_pack_ofRounded (nearestEven_le_two_pow w) (roundingExponent_ge_min w)
    (roundPositive_shape hw)]
  split_ifs <;> simp [Prod.Lex.toLex_le_toLex]

end Monotone

section Exact

/-! Floats that are the rounding of a non-negative rational, and the sums, differences and
products of such floats. -/

/-- `x` is the binary64 rounding of the non-negative rational `v`: a zero of either sign for
`v = 0`, and otherwise `v` rounded to nearest and packed, which may overflow to infinity. -/
def RoundsFrom (x : Float) (v : ℚ) : Prop :=
  (v = 0 ∧ ∃ s, x.toModel.unpack = .zero s) ∨
    (0 < v ∧ x.toModel.unpack = (Float.Model.pack (roundPositive v)).unpack)

variable {x y : Float} {v w : ℚ}

theorem unpack_pack_unpack (x : Float) :
    (Float.Model.pack x.toModel.unpack).unpack = x.toModel.unpack := by
  change UnpackedFloat.unpack .binary64
    (UnpackedFloat.pack .binary64 (UnpackedFloat.unpack .binary64 x.toModel.toBits.toBitVec)) = _
  rw [pack_unpack_of_valid x.toModel.valid]
  rfl

theorem roundsFrom_congr (h : x.toModel.unpack = y.toModel.unpack) :
    RoundsFrom x v ↔ RoundsFrom y v := by
  rw [RoundsFrom, RoundsFrom, h]

theorem unpack_of_value_nonneg (hx : x.isFinite = true) (hx0 : 0 ≤ value x) :
    (∃ s, x.toModel.unpack = .zero s) ∨ ∃ m e hm, x.toModel.unpack = .finite .positive m e hm := by
  unfold value at hx0
  change x.toModel.unpack.isFinite = true at hx
  generalize x.toModel.unpack = u at hx hx0 ⊢
  cases u with
  | infinity s => simp [UnpackedFloat.isFinite] at hx
  | notANumber => simp [UnpackedFloat.isFinite] at hx
  | zero s => exact .inl ⟨s, rfl⟩
  | finite s m e hm =>
    cases s with
    | positive => exact .inr ⟨m, e, hm, rfl⟩
    | negative =>
      have : (0 : ℚ) < m * 2 ^ e := by positivity
      simp only [Sign.apply, Int.cast_neg, Int.cast_natCast, neg_mul] at hx0
      linarith

theorem roundPositive_canonical {m : ℕ} {e : ℤ} (hm : 0 < m)
    (hshape : (m.log2 = 52 ∧ -1074 ≤ e) ∨ (m < 2 ^ 52 ∧ e = -1074)) :
    roundPositive (m * 2 ^ e) = .finite .positive m e hm := by
  have h := roundWithAccuracy_canonical .positive hm hshape 0
  simp only [pow_zero, mul_one, Nat.cast_zero, sub_zero] at h
  have htarget : Format.binary64.targetExponent (totalExponent m e) =
      max ((m.log2 : ℤ) + 1 + e - 53) (-1074) := rfl
  have hE : e ≤ Format.binary64.targetExponent (totalExponent m e) := by
    rcases hshape with ⟨hl, -⟩ | ⟨-, rfl⟩ <;> omega
  rw [← h, roundWithAccuracy_positive hm hE]

theorem roundsFrom_self (hx : x.isFinite = true) (hx0 : 0 ≤ value x) : RoundsFrom x (value x) := by
  rcases unpack_of_value_nonneg hx hx0 with ⟨s, hu⟩ | ⟨m, e, hm, hu⟩
  · exact .inl ⟨by simp [value, hu], s, hu⟩
  · have hv : value x = m * 2 ^ e := by simp [value_of_unpack hu, Sign.apply]
    have hshape : (m.log2 = 52 ∧ -1074 ≤ e) ∨ (m < 2 ^ 52 ∧ e = -1074) := by
      rcases unpack_finite_shape x.toModel hu with ⟨hl, he, -⟩ | h
      · exact .inl ⟨hl, he⟩
      · exact .inr h
    refine .inr ⟨by rw [hv]; positivity, ?_⟩
    rw [hv, roundPositive_canonical hm hshape, ← hu, unpack_pack_unpack]

/-- An exact sum or difference with a non-negative mantissa rounds from its value. -/
theorem roundsFrom_of_normalize {M e : ℤ} {z : Sign} (hM : 0 ≤ M)
    (hx : x.toModel.unpack = (Float.Model.pack (normalize .binary64 M e z)).unpack) :
    RoundsFrom x (M * 2 ^ e) := by
  rcases hM.lt_or_eq with hM | rfl
  · have hcast : ((M.toNat : ℕ) : ℚ) = M := by exact_mod_cast Int.toNat_of_nonneg hM.le
    refine .inr ⟨by positivity, ?_⟩
    rw [hx, UnpackedFloat.normalize, (compare_gt_iff_gt.mpr hM : compare M 0 = .gt)]
    dsimp only
    rw [round_positive (by omega), hcast]
  · refine .inl ⟨by simp, z, ?_⟩
    rw [hx]
    exact unpack_pack_zero z

theorem apply_shiftLeft_mul_zpow (s : Sign) (m : ℕ) {e e₀ : ℤ} (h : e₀ ≤ e) :
    ((s.apply (m <<< (e - e₀).toNat : ℕ) : ℤ) : ℚ) * 2 ^ e₀ = (s.apply m : ℚ) * 2 ^ e := by
  have hk : ((e - e₀).toNat : ℤ) = e - e₀ := Int.toNat_of_nonneg (by omega)
  have hpow : ((2 : ℚ) ^ (e - e₀).toNat) * 2 ^ e₀ = 2 ^ e := by
    rw [← zpow_natCast, ← zpow_add₀ (by norm_num), hk, sub_add_cancel]
  rw [Nat.shiftLeft_eq, ← hpow]
  cases s <;> simp only [Sign.apply] <;> push_cast <;> ring

theorem add_finite (s t : Sign) {m n : ℕ} {e f : ℤ} (hm : 0 < m) (hn : 0 < n) :
    ∃ M : ℤ, add .binary64 (.finite s m e hm) (.finite t n f hn) =
        UnpackedFloat.normalize .binary64 M (min e f) .positive ∧
      (M : ℚ) * 2 ^ min e f = s.apply m * 2 ^ e + t.apply n * 2 ^ f :=
  ⟨_, rfl, by rw [Int.cast_add, add_mul, apply_shiftLeft_mul_zpow _ _ (min_le_left e f),
    apply_shiftLeft_mul_zpow _ _ (min_le_right e f)]⟩

theorem sub_finite (s t : Sign) {m n : ℕ} {e f : ℤ} (hm : 0 < m) (hn : 0 < n) :
    ∃ M : ℤ, sub .binary64 (.finite s m e hm) (.finite t n f hn) =
        UnpackedFloat.normalize .binary64 M (min e f) .positive ∧
      (M : ℚ) * 2 ^ min e f = s.apply m * 2 ^ e - t.apply n * 2 ^ f :=
  ⟨_, rfl, by rw [Int.cast_sub, sub_mul, apply_shiftLeft_mul_zpow _ _ (min_le_left e f),
    apply_shiftLeft_mul_zpow _ _ (min_le_right e f)]⟩

theorem unpack_pack_of_unpack {u : UnpackedFloat} (h : x.toModel.unpack = u) :
    UnpackedFloat.unpack .binary64 (UnpackedFloat.pack .binary64 u) = u := by
  rw [← h]
  exact unpack_pack_unpack x

/-- The sum of two finite floats of non-negative value rounds from the exact sum. -/
theorem RoundsFrom.add (hx : x.isFinite = true) (hy : y.isFinite = true) (hx0 : 0 ≤ value x)
    (hy0 : 0 ≤ value y) : RoundsFrom (x + y) (value x + value y) := by
  rcases unpack_of_value_nonneg hx hx0 with ⟨s, hu⟩ | ⟨m, e, hm, hu⟩ <;>
    rcases unpack_of_value_nonneg hy hy0 with ⟨t, hv⟩ | ⟨n, f, hn, hv⟩
  · refine .inl ⟨by simp [value, hu, hv], ?_⟩
    rw [unpack_add, hu, hv]
    simp only [UnpackedFloat.add]
    split_ifs
    · exact ⟨_, unpack_pack_zero _⟩
    · exact ⟨_, unpack_pack_zero _⟩
  · have hx' : value x = 0 := by simp [value, hu]
    have hsum : (x + y).toModel.unpack = y.toModel.unpack := by
      rw [unpack_add, hu, hv]
      exact unpack_pack_of_unpack hv
    rw [hx', zero_add, roundsFrom_congr hsum]
    exact roundsFrom_self hy hy0
  · have hy' : value y = 0 := by simp [value, hv]
    have hsum : (x + y).toModel.unpack = x.toModel.unpack := by
      rw [unpack_add, hu, hv]
      exact unpack_pack_of_unpack hu
    rw [hy', add_zero, roundsFrom_congr hsum]
    exact roundsFrom_self hx hx0
  · -- both finite: the exact sum at the smaller exponent is rounded
    obtain ⟨M, hadd, hM⟩ := add_finite .positive .positive hm hn
    have hval : value x + value y = M * 2 ^ min e f := by
      rw [hM, value_of_unpack hu, value_of_unpack hv]
    have hM0 : (0 : ℚ) ≤ M :=
      (mul_nonneg_iff_of_pos_right (by positivity)).mp (hval ▸ add_nonneg hx0 hy0)
    rw [hval]
    exact roundsFrom_of_normalize (by exact_mod_cast hM0) (by rw [unpack_add, hu, hv, hadd]; rfl)

theorem RoundsFrom.sub (hx : x.isFinite = true) (hy : y.isFinite = true) (hy0 : 0 ≤ value y)
    (hyx : value y ≤ value x) : RoundsFrom (x - y) (value x - value y) := by
  have hx0 := hy0.trans hyx
  rcases unpack_of_value_nonneg hx hx0 with ⟨s, hu⟩ | ⟨m, e, hm, hu⟩ <;>
    rcases unpack_of_value_nonneg hy hy0 with ⟨t, hv⟩ | ⟨n, f, hn, hv⟩
  · refine .inl ⟨by simp [value, hu, hv], ?_⟩
    rw [unpack_sub, hu, hv]
    simp only [UnpackedFloat.sub]
    split_ifs
    · exact ⟨_, unpack_pack_zero _⟩
    · exact ⟨_, unpack_pack_zero _⟩
  · -- a positive value is not below zero
    have : (0 : ℚ) < n * 2 ^ f := by positivity
    simp only [value, hu, hv, Sign.apply, Int.cast_natCast] at hyx
    linarith
  · have hy' : value y = 0 := by simp [value, hv]
    have hdiff : (x - y).toModel.unpack = x.toModel.unpack := by
      rw [unpack_sub, hu, hv]
      exact unpack_pack_of_unpack hu
    rw [hy', sub_zero, roundsFrom_congr hdiff]
    exact roundsFrom_self hx hx0
  · -- both finite: the exact difference at the smaller exponent is rounded
    obtain ⟨M, hsub, hM⟩ := sub_finite .positive .positive hm hn
    have hval : value x - value y = M * 2 ^ min e f := by
      rw [hM, value_of_unpack hu, value_of_unpack hv]
    have hM0 : (0 : ℚ) ≤ M :=
      (mul_nonneg_iff_of_pos_right (by positivity)).mp (hval ▸ sub_nonneg.mpr hyx)
    rw [hval]
    exact roundsFrom_of_normalize (by exact_mod_cast hM0) (by rw [unpack_sub, hu, hv, hsub]; rfl)

/-- The product of two finite floats of non-negative value rounds from the exact product. -/
theorem RoundsFrom.mul (hx : x.isFinite = true) (hy : y.isFinite = true) (hx0 : 0 ≤ value x)
    (hy0 : 0 ≤ value y) : RoundsFrom (x * y) (value x * value y) := by
  rcases unpack_of_value_nonneg hx hx0 with ⟨s, hu⟩ | ⟨m, e, hm, hu⟩ <;>
    rcases unpack_of_value_nonneg hy hy0 with ⟨t, hv⟩ | ⟨n, f, hn, hv⟩
  · exact .inl ⟨by simp [value, hu], _, by rw [unpack_mul, hu, hv]; exact unpack_pack_zero _⟩
  · exact .inl ⟨by simp [value, hu], _, by rw [unpack_mul, hu, hv]; exact unpack_pack_zero _⟩
  · exact .inl ⟨by simp [value, hv], _, by rw [unpack_mul, hu, hv]; exact unpack_pack_zero _⟩
  · -- the exact product of canonical mantissas has its exponent at or below the rounding one
    have hmn : m * n ≠ 0 := by positivity
    have hE : e + f ≤ Format.binary64.targetExponent (totalExponent (m * n) (e + f)) := by
      have htarget : Format.binary64.targetExponent (totalExponent (m * n) (e + f)) =
          max (((m * n).log2 : ℤ) + 1 + (e + f) - 53) (-1074) := rfl
      -- a normal factor already gives the product 53 bits; two subnormal ones sit far below
      have hlog := le_log2_mul hm.ne' hn.ne'
      have hxs := unpack_finite_shape x.toModel hu
      have hys := unpack_finite_shape y.toModel hv
      omega
    have hval : value x * value y = ((m * n : ℕ) : ℚ) * 2 ^ (e + f) := by
      rw [value_of_unpack hu, value_of_unpack hv, zpow_add₀ (by norm_num)]
      simp only [Sign.apply, Int.cast_natCast, Nat.cast_mul]
      ring
    refine .inr ⟨by rw [hval]; positivity, ?_⟩
    rw [unpack_mul, hu, hv, hval]
    change UnpackedFloat.unpack .binary64 (UnpackedFloat.pack .binary64
      (roundWithAccuracy .binary64 .positive (m * n) (e + f) .exact)) = _
    rw [roundWithAccuracy_positive (Nat.pos_of_ne_zero hmn) hE]
    rfl

theorem RoundsFrom.sortKey_bounds (hx : RoundsFrom x v) :
    toLex (2, toLex (0, 0)) ≤ sortKey x.toModel.unpack ∧
      sortKey x.toModel.unpack ≤ toLex (4, toLex (0, 0)) := by
  rcases hx with ⟨-, s, hu⟩ | ⟨hv, hu⟩
  · rw [hu]
    simp [sortKey, Prod.Lex.toLex_le_toLex]
  · rw [hu]
    exact sortKey_pack_roundPositive_bounds hv

theorem RoundsFrom.ne_notANumber (hx : RoundsFrom x v) : x.toModel.unpack ≠ .notANumber := by
  intro h
  have := hx.sortKey_bounds.2
  rw [h] at this
  simp [sortKey, Prod.Lex.toLex_le_toLex] at this

/-- Rounding keeps order: the roundings of two values are in the order of the values. -/
theorem RoundsFrom.le (hx : RoundsFrom x v) (hy : RoundsFrom y w) (hvw : v ≤ w) : x ≤ y := by
  rw [le_iff_sortKey_le hx.ne_notANumber hy.ne_notANumber]
  rcases hx with ⟨rfl, s, hu⟩ | ⟨hv, hu⟩
  · rw [hu]
    exact hy.sortKey_bounds.1
  · rcases hy with ⟨rfl, t, -⟩ | ⟨hw, hu'⟩
    · exact absurd hvw (not_le.mpr hv)
    · rw [hu, hu']
      exact sortKey_pack_roundPositive_mono hv hvw

end Exact

end CrystalLattice.Binary64
