import Mathlib
import CrystalLattice.Proofs.Binary64Monotone
import CrystalLattice.Proofs.Exact

/-!
# Integer parts of binary64 floats

`floor` and `roundHalfEven` work on the word of a float. On each shape of word they have a closed
form, so both are exact on every finite float (`floor_value`, `roundHalfEven_value`), and a float
less its nearest integer is finite and at most one half (`sub_roundHalfEven_value`).
-/

namespace CrystalLattice.Binary64

open Float.Model Float.Model.UnpackedFloat

section Words

/-- The word of a normal float: its sign bit, its exponent above the least one, and its mantissa
with the leading bit, which carries into the exponent field. -/
theorem word_normal {x : Float} {s : Sign} {m : ℕ} {e : ℤ} {hm : 0 < m}
    (hx : x.toModel.unpack = .finite s m e hm) (hlog : m.log2 = 52) (he : -1074 ≤ e)
    (he' : e ≤ 971) :
    word x = s.toBitVec.toNat * 2 ^ 63 + (e + 1074).toNat * 2 ^ 52 + m := by
  obtain ⟨h₁, h₂⟩ := mantissa_bounds_of_log2 hm hlog
  rw [word_of_unpack_normal hx hlog he he']
  obtain ⟨f, rfl⟩ : ∃ f, m = 2 ^ 52 + f := ⟨m - 2 ^ 52, by omega⟩
  have hmod : (2 ^ 52 + f) % 2 ^ 52 = f := by
    rw [Nat.add_mod_left, Nat.mod_eq_of_lt (by omega)]
  have hexp : (e + 1075).toNat = (e + 1074).toNat + 1 := by omega
  rw [hmod, hexp]
  ring

theorem word_subnormal {x : Float} {s : Sign} {m : ℕ} {hm : 0 < m}
    (hx : x.toModel.unpack = .finite s m (-1074) hm) (hm52 : m < 2 ^ 52) :
    word x = s.toBitVec.toNat * 2 ^ 63 + m := by
  have hbits : x.toModel.toBits.toBitVec = UnpackedFloat.pack .binary64 (.finite s m (-1074) hm) := by
    rw [← hx]
    exact (pack_unpack_of_valid x.toModel.valid).symm
  have hlog : m.log2 < 52 := (Nat.log2_lt hm.ne').mpr hm52
  have hbias : Format.binary64.exponentBias = 1023 := rfl
  have hmb : Format.binary64.mantissaBits = 53 := rfl
  change x.toModel.toBits.toBitVec.toNat = _
  rw [hbits]
  simp only [UnpackedFloat.pack, hbias, hmb]
  rw [if_neg (by decide), if_neg (by omega)]
  have hfit : (BitVec.ofNat 52 m).toNat = m := by rw [BitVec.toNat_ofNat, Nat.mod_eq_of_lt hm52]
  simp only [packComponents, BitVec.toNat_append, hfit]
  rw [← Nat.shiftLeft_add_eq_or_of_lt hm52]
  simp [Nat.shiftLeft_eq]
  ring

theorem sign_toNat_lt (s : Sign) : s.toBitVec.toNat < 2 := s.toBitVec.isLt

theorem unpack_ofWord_normal (s : Sign) {m D : ℕ} (hm : 2 ^ 52 ≤ m) (hm' : m < 2 ^ 53)
    (hD : D ≤ 2045) :
    (ofWord (s.toBitVec.toNat * 2 ^ 63 + D * 2 ^ 52 + m)).toModel.unpack =
      .finite s m ((D : ℤ) - 1074) (by positivity) := by
  have hlog : m.log2 = 52 := (Nat.log2_eq_iff (by positivity)).mpr ⟨hm, hm'⟩
  let y : Float := Float.ofModel (Float.Model.pack (.finite s m ((D : ℤ) - 1074) (by positivity)))
  have hy : y.toModel.unpack = .finite s m ((D : ℤ) - 1074) (by positivity) :=
    unpack_pack_normal s _ hlog (by omega) (by omega)
  have hw := word_normal hy hlog (by omega) (by omega)
  rw [show ((D : ℤ) - 1074 + 1074).toNat = D by omega] at hw
  rw [← hw, ofWord_word]
  exact hy

theorem unpack_ofWord_zero (s : Sign) :
    (ofWord (s.toBitVec.toNat * 2 ^ 63)).toModel.unpack = .zero s := by
  let y : Float := Float.ofModel (Float.Model.pack (.zero s))
  have hy : y.toModel.unpack = .zero s := unpack_pack_zero s
  rw [← word_of_unpack_zero hy, ofWord_word]
  exact hy

variable {b D m : ℕ}

theorem signBit_normalWord (hb : b < 2) (hD : D ≤ 2045) (hm : m < 2 ^ 53) :
    signBit (b * 2 ^ 63 + D * 2 ^ 52 + m) = b := by
  simp only [signBit, Nat.pow_eq]
  norm_num at hm ⊢
  omega

theorem exponentField_normalWord (hD : D ≤ 2045) (hm : 2 ^ 52 ≤ m)
    (hm' : m < 2 ^ 53) : exponentField (b * 2 ^ 63 + D * 2 ^ 52 + m) = D + 1 := by
  simp only [exponentField, fractionWidth, Nat.pow_eq]
  norm_num at hm hm' ⊢
  omega

theorem fractionField_normalWord (hm : 2 ^ 52 ≤ m) (hm' : m < 2 ^ 53) :
    fractionField (b * 2 ^ 63 + D * 2 ^ 52 + m) = m - 2 ^ 52 := by
  simp only [fractionField, fractionWidth, Nat.pow_eq]
  norm_num at hm hm' ⊢
  omega

theorem signBit_subnormalWord (hb : b < 2) (hm : m < 2 ^ 52) : signBit (b * 2 ^ 63 + m) = b := by
  simp only [signBit, Nat.pow_eq]
  norm_num at hm ⊢
  omega

theorem exponentField_subnormalWord (hm : m < 2 ^ 52) :
    exponentField (b * 2 ^ 63 + m) = 0 := by
  simp only [exponentField, fractionWidth, Nat.pow_eq]
  norm_num at hm ⊢
  omega

theorem signedZero_normalWord (hb : b < 2) (hD : D ≤ 2045) (hm : m < 2 ^ 53) :
    signedZero (b * 2 ^ 63 + D * 2 ^ 52 + m) = b * 2 ^ 63 := by
  rw [signedZero, signBit_normalWord hb hD hm, Nat.pow_eq]

theorem signedOne_normalWord (hb : b < 2) (hD : D ≤ 2045) (hm : m < 2 ^ 53) :
    signedOne (b * 2 ^ 63 + D * 2 ^ 52 + m) = b * 2 ^ 63 + 1022 * 2 ^ 52 + 2 ^ 52 := by
  rw [signedOne, signedZero_normalWord hb hD hm, bias, fractionWidth, Nat.pow_eq]
  ring

/-- At exponent `-(i + 1)` the unit is `2 ^ (i + 1)`, and the leading bit of the mantissa is a
multiple of it. -/
theorem two_pow_52_eq {i : ℕ} (hi : i ≤ 51) : (2 : ℕ) ^ 52 = 2 ^ (i + 1) * 2 ^ (51 - i) := by
  rw [← pow_add, show i + 1 + (51 - i) = 52 by omega]

theorem fields_eq_unit_mul {i : ℕ} (hi : i ≤ 51) :
    b * 2 ^ 63 + (1073 - i) * 2 ^ 52 =
      2 ^ (i + 1) * (b * 2 ^ (62 - i) + (1073 - i) * 2 ^ (51 - i)) := by
  have h₁ : (2 : ℕ) ^ 63 = 2 ^ (i + 1) * 2 ^ (62 - i) := by
    rw [← pow_add, show i + 1 + (62 - i) = 63 by omega]
  rw [h₁, two_pow_52_eq hi]
  ring

end Words

section Nearest

/-- Adding just under a half unit, or a full half when the integer part is odd, and
truncating, rounds to the nearest integer with ties to even. -/
theorem div_add_half_eq_nearestEven (m i : ℕ) :
    (m + (2 ^ i - 1 + m / 2 ^ (i + 1) % 2)) / 2 ^ (i + 1) = nearestEven (m / 2 ^ (i + 1)) := by
  set a := m / 2 ^ (i + 1) with ha
  set r := m % 2 ^ (i + 1) with hr
  have hX : 0 < 2 ^ i := by positivity
  have hP : 2 ^ (i + 1) = 2 * 2 ^ i := by ring
  have hrlt : r < 2 * 2 ^ i := hP ▸ Nat.mod_lt _ (by positivity)
  have hm : m = 2 ^ (i + 1) * a + r := (Nat.div_add_mod m _).symm
  have hsplit : (m + (2 ^ i - 1 + a % 2)) / 2 ^ (i + 1) =
      a + (r + (2 ^ i - 1 + a % 2)) / 2 ^ (i + 1) := by
    rw [hm, Nat.add_assoc, Nat.mul_add_div (by positivity)]
  unfold nearestEven
  simp only [natFloor_div_two_pow, div_two_pow_sub_floor, div_two_mul_two_pow_lt_half_iff,
    half_lt_div_two_mul_two_pow_iff]
  rw [hsplit, ← ha, ← hr, hP]
  have hpar : a % 2 < 2 := Nat.mod_lt _ (by norm_num)
  have hlow : ∀ t, t < 2 * 2 ^ i → t / (2 * 2 ^ i) = 0 := fun t ht => Nat.div_eq_of_lt ht
  have hhigh : ∀ t, 2 * 2 ^ i ≤ t → t < 2 * (2 * 2 ^ i) → t / (2 * 2 ^ i) = 1 :=
    fun t h₁ h₂ => Nat.div_eq_of_lt_le (by omega) (by omega)
  split_ifs with hlo hhi
  · rw [hlow _ (by omega), Nat.add_zero]
  · rw [hhigh _ (by omega) (by omega)]
  · -- a tie: the half unit is added in full exactly when the integer part is odd
    rcases Nat.mod_two_eq_zero_or_one a with h | h
    · rw [h, hlow _ (by omega)]
    · rw [h, hhigh _ (by omega) (by omega)]

theorem half_carry_eq {i p : ℕ} (hi : i ≤ 51) (hp : p < 2) :
    (2 ^ 51 - 1 + p) / 2 ^ (51 - i) = 2 ^ i - 1 + p := by
  have hsplit : (2 : ℕ) ^ 51 = 2 ^ i * 2 ^ (51 - i) := by
    rw [← pow_add, Nat.add_sub_cancel' hi]
  have hQ : 0 < 2 ^ (51 - i) := by positivity
  have hX : 0 < 2 ^ i := by positivity
  rw [hsplit]
  rcases (by omega : p = 0 ∨ p = 1) with rfl | rfl
  · apply Nat.div_eq_of_lt_le
    · rw [Nat.add_zero, Nat.add_zero, Nat.sub_mul, Nat.one_mul]
      omega
    · rw [Nat.add_zero, Nat.sub_add_cancel hX]
      omega
  · rw [Nat.sub_add_cancel (by omega), Nat.sub_add_cancel hX, Nat.mul_div_cancel _ hQ]

/-- Rounding a normal word whose value lies in `[1, 2 ^ 52)`: the mantissa, whose last `i + 1`
bits are fractional, becomes its nearest multiple of `2 ^ (i + 1)`. -/
theorem roundHalfEvenWord_normalWord {i : ℕ} (hi : i ≤ 51) (hm : 2 ^ 52 ≤ m)
    (hm' : m < 2 ^ 53) :
    roundHalfEvenWord (b * 2 ^ 63 + (1073 - i) * 2 ^ 52 + m) =
      b * 2 ^ 63 + (1073 - i) * 2 ^ 52 + 2 ^ (i + 1) * nearestEven (m / 2 ^ (i + 1)) := by
  set Q := b * 2 ^ (62 - i) + (1073 - i) * 2 ^ (51 - i) with hQ
  have hbase : b * 2 ^ 63 + (1073 - i) * 2 ^ 52 = 2 ^ (i + 1) * Q := fields_eq_unit_mul hi
  have heven : Q % 2 = 0 := by
    have h₁ : 2 ∣ b * 2 ^ (62 - i) :=
      Dvd.dvd.mul_left (dvd_pow_self 2 (by omega)) b
    have h₂ : 2 ∣ (1073 - i) * 2 ^ (51 - i) := by
      rcases Nat.lt_or_ge i 51 with h | h
      · exact Dvd.dvd.mul_left (dvd_pow_self 2 (by omega)) _
      · exact Dvd.dvd.mul_right ⟨511, by omega⟩ _
    exact Nat.mod_eq_zero_of_dvd (dvd_add h₁ h₂)
  have hpos : 0 < 2 ^ (i + 1) := by positivity
  have hparity : (2 ^ (i + 1) * Q + m) / 2 ^ (i + 1) % 2 = m / 2 ^ (i + 1) % 2 := by
    rw [Nat.mul_add_div hpos, Nat.add_mod, heven, Nat.zero_add, Nat.mod_mod]
  unfold roundHalfEvenWord
  rw [exponentField_normalWord (by omega) hm hm']
  dsimp only
  have hk : 1073 - i + 1 - bias = 51 - i := by unfold bias; omega
  have hunit : Nat.pow 2 (fractionWidth - (51 - i)) = 2 ^ (i + 1) := by
    rw [Nat.pow_eq, show fractionWidth - (51 - i) = i + 1 by unfold fractionWidth; omega]
  have hhalf : Nat.pow 2 (fractionWidth - 1) = 2 ^ 51 := rfl
  rw [if_pos (by unfold bias; omega), hk, if_pos (by unfold fractionWidth; omega), hunit, hhalf,
    Nat.pow_eq, hbase, hparity, half_carry_eq hi (Nat.mod_lt _ (by norm_num))]
  rw [← div_add_half_eq_nearestEven m i]
  set t := m + (2 ^ i - 1 + m / 2 ^ (i + 1) % 2)
  have hmod : (2 ^ (i + 1) * Q + t) % 2 ^ (i + 1) = t % 2 ^ (i + 1) := by
    rw [Nat.add_mod, Nat.mul_mod_right, Nat.zero_add, Nat.mod_mod]
  have hdm := Nat.div_add_mod t (2 ^ (i + 1))
  rw [Nat.add_assoc, hmod]
  omega

theorem roundHalfEvenWord_small (hb : b < 2) (hD : D ≤ 1020) (hm : 2 ^ 52 ≤ m)
    (hm' : m < 2 ^ 53) : roundHalfEvenWord (b * 2 ^ 63 + D * 2 ^ 52 + m) = b * 2 ^ 63 := by
  unfold roundHalfEvenWord
  rw [exponentField_normalWord (by omega) hm hm']
  dsimp only
  rw [if_neg (by unfold bias; omega), if_neg (by unfold bias; omega),
    signedZero_normalWord hb (by omega) hm']

theorem roundHalfEvenWord_half (hb : b < 2) :
    roundHalfEvenWord (b * 2 ^ 63 + 1021 * 2 ^ 52 + 2 ^ 52) = b * 2 ^ 63 := by
  unfold roundHalfEvenWord
  rw [exponentField_normalWord (by omega) le_rfl (by norm_num),
    fractionField_normalWord le_rfl (by norm_num)]
  dsimp only
  rw [if_neg (by unfold bias; omega), if_neg (by omega), signedZero_normalWord hb (by omega)
    (by norm_num)]

theorem roundHalfEvenWord_above_half (hb : b < 2) (hm : 2 ^ 52 < m) (hm' : m < 2 ^ 53) :
    roundHalfEvenWord (b * 2 ^ 63 + 1021 * 2 ^ 52 + m) = b * 2 ^ 63 + 1022 * 2 ^ 52 + 2 ^ 52 := by
  unfold roundHalfEvenWord
  rw [exponentField_normalWord (by omega) hm.le hm', fractionField_normalWord hm.le hm']
  dsimp only
  rw [if_neg (by unfold bias; omega), if_pos ⟨by unfold bias; omega, by omega⟩,
    signedOne_normalWord hb (by omega) hm']

theorem roundHalfEvenWord_large (hD : 1074 ≤ D) (hD' : D ≤ 2045) (hm : 2 ^ 52 ≤ m)
    (hm' : m < 2 ^ 53) :
    roundHalfEvenWord (b * 2 ^ 63 + D * 2 ^ 52 + m) = b * 2 ^ 63 + D * 2 ^ 52 + m := by
  unfold roundHalfEvenWord
  rw [exponentField_normalWord hD' hm hm']
  dsimp only
  rw [if_pos (by unfold bias; omega), if_neg (by unfold bias fractionWidth; omega)]

theorem nearestEven_eq_zero {v : ℚ} (h : v < 1 / 2) : nearestEven v = 0 := by
  have hfl : ⌊v⌋₊ = 0 := Nat.floor_eq_zero.mpr (by linarith)
  simp only [nearestEven, hfl, Nat.cast_zero, sub_zero, if_pos h]

theorem nearestEven_eq_one {v : ℚ} (h : 1 / 2 < v) (h' : v < 1) : nearestEven v = 1 := by
  have hfl : ⌊v⌋₊ = 0 := Nat.floor_eq_zero.mpr h'
  simp only [nearestEven, hfl, Nat.cast_zero, sub_zero, if_neg (not_lt.mpr h.le), if_pos h]

theorem nearestEven_half : nearestEven (1 / 2) = 0 := by
  have hfl : ⌊(1 / 2 : ℚ)⌋₊ = 0 := Nat.floor_eq_zero.mpr (by norm_num)
  rw [nearestEven, hfl]
  norm_num

end Nearest

section Values

variable {x : Float}

theorem isFinite_of_unpack_finite {s : Sign} {m : ℕ} {e : ℤ} {hm : 0 < m}
    (hx : x.toModel.unpack = .finite s m e hm) : x.isFinite = true := by
  change x.toModel.unpack.isFinite = true
  rw [hx]
  rfl

theorem isFinite_of_unpack_zero {s : Sign} (hx : x.toModel.unpack = .zero s) :
    x.isFinite = true := by
  change x.toModel.unpack.isFinite = true
  rw [hx]
  rfl

theorem value_of_unpack_zero {s : Sign} (hx : x.toModel.unpack = .zero s) : value x = 0 := by
  simp only [value, hx]

/-- A normal word whose mantissa may have carried up to `2 ^ 53` is a finite float with the
value the word spells. -/
theorem ofWord_normal_value (s : Sign) {M D : ℕ} (hM : 2 ^ 52 ≤ M) (hM' : M ≤ 2 ^ 53)
    (hD : D ≤ 2044) :
    (ofWord (s.toBitVec.toNat * 2 ^ 63 + D * 2 ^ 52 + M)).isFinite = true ∧
      value (ofWord (s.toBitVec.toNat * 2 ^ 63 + D * 2 ^ 52 + M)) =
        (s.apply M : ℚ) * 2 ^ ((D : ℤ) - 1074) := by
  rcases hM'.lt_or_eq with hlt | rfl
  · have hu := unpack_ofWord_normal s hM hlt (by omega : D ≤ 2045)
    exact ⟨isFinite_of_unpack_finite hu, value_of_unpack hu⟩
  · -- a carry out of the mantissa moves to the next exponent
    have hw : s.toBitVec.toNat * 2 ^ 63 + D * 2 ^ 52 + 2 ^ 53 =
        s.toBitVec.toNat * 2 ^ 63 + (D + 1) * 2 ^ 52 + 2 ^ 52 := by ring
    have hu := unpack_ofWord_normal s (le_refl (2 ^ 52)) (by norm_num) (by omega : D + 1 ≤ 2045)
    rw [hw]
    refine ⟨isFinite_of_unpack_finite hu, ?_⟩
    have hz : (2 : ℚ) ^ (((D + 1 : ℕ) : ℤ) - 1074) = 2 * 2 ^ ((D : ℤ) - 1074) := by
      rw [show ((D + 1 : ℕ) : ℤ) - 1074 = (D : ℤ) - 1074 + 1 by push_cast; ring,
        zpow_add_one₀ (by norm_num)]
      ring
    rw [value_of_unpack hu, hz]
    cases s <;> simp only [Sign.apply] <;> push_cast <;> ring

theorem mul_zpow_neg_succ (q : ℚ) (i : ℕ) : q * 2 ^ (-((i : ℤ) + 1)) = q / 2 ^ (i + 1) := by
  rw [zpow_neg, ← Nat.cast_succ, zpow_natCast, div_eq_mul_inv]

theorem ofWord_unitMultiple_value (s : Sign) {i N : ℕ} (hi : i ≤ 51)
    (h₁ : 2 ^ 52 ≤ 2 ^ (i + 1) * N) (h₂ : 2 ^ (i + 1) * N ≤ 2 ^ 53) :
    (ofWord (s.toBitVec.toNat * 2 ^ 63 + (1073 - i) * 2 ^ 52 + 2 ^ (i + 1) * N)).isFinite = true ∧
      value (ofWord (s.toBitVec.toNat * 2 ^ 63 + (1073 - i) * 2 ^ 52 + 2 ^ (i + 1) * N)) =
        (s.apply N : ℚ) := by
  obtain ⟨hfin, hval⟩ := ofWord_normal_value s h₁ h₂ (by omega : 1073 - i ≤ 2044)
  refine ⟨hfin, ?_⟩
  rw [hval, show (((1073 - i : ℕ) : ℤ) - 1074) = -((i : ℤ) + 1) by omega, mul_zpow_neg_succ]
  cases s <;> simp only [Sign.apply] <;> push_cast <;> field_simp

/-- A normal mantissa rounded at the unit `2 ^ (i + 1)` and put back at that unit is again a
mantissa of `[2 ^ 52, 2 ^ 53]`: the rounding is monotone and keeps the two powers of two that
bound it. -/
theorem nearestEven_div_two_pow_bounds {i m : ℕ} (hi : i ≤ 51) (h₁ : 2 ^ 52 ≤ m) (h₂ : m < 2 ^ 53) :
    2 ^ 52 ≤ 2 ^ (i + 1) * nearestEven ((m : ℚ) / 2 ^ (i + 1)) ∧
      2 ^ (i + 1) * nearestEven ((m : ℚ) / 2 ^ (i + 1)) ≤ 2 ^ 53 := by
  have hm₁ : (2 : ℚ) ^ 52 ≤ m := by exact_mod_cast h₁
  have hm₂ : (m : ℚ) < 2 ^ 53 := by exact_mod_cast h₂
  have hlo : 2 ^ (51 - i) ≤ nearestEven ((m : ℚ) / 2 ^ (i + 1)) := by
    have := nearestEven_mono (x := ((2 ^ (51 - i) : ℕ) : ℚ)) (y := (m : ℚ) / 2 ^ (i + 1))
      (by rw [le_div_iff₀ (by positivity)]; push_cast; rw [← pow_add,
        show 51 - i + (i + 1) = 52 by omega]; exact hm₁)
    rwa [nearestEven_natCast] at this
  have hhi : nearestEven ((m : ℚ) / 2 ^ (i + 1)) ≤ 2 ^ (52 - i) := by
    have := nearestEven_mono (y := ((2 ^ (52 - i) : ℕ) : ℚ)) (x := (m : ℚ) / 2 ^ (i + 1))
      (by rw [div_le_iff₀ (by positivity)]; push_cast; rw [← pow_add,
        show 52 - i + (i + 1) = 53 by omega]; exact hm₂.le)
    rwa [nearestEven_natCast] at this
  constructor
  · rw [two_pow_52_eq hi]
    exact Nat.mul_le_mul_left _ hlo
  · rw [show (2 : ℕ) ^ 53 = 2 ^ (i + 1) * 2 ^ (52 - i) by
      rw [← pow_add, show i + 1 + (52 - i) = 53 by omega]]
    exact Nat.mul_le_mul_left _ hhi

/-- Rounding a normal float to the nearest integer gives a finite float whose magnitude is the
nearest integer to the float's magnitude, ties to even, with the float's sign. -/
theorem roundHalfEven_normal {s : Sign} {m : ℕ} {e : ℤ} {hm : 0 < m}
    (hx : x.toModel.unpack = .finite s m e hm) (hlog : m.log2 = 52) (he : -1074 ≤ e)
    (he' : e ≤ 971) :
    (roundHalfEven x).isFinite = true ∧
      value (roundHalfEven x) = ((s.apply (nearestEven ((m : ℚ) * 2 ^ e) : ℕ) : ℤ) : ℚ) := by
  obtain ⟨h₁, h₂⟩ := mantissa_bounds_of_log2 hm hlog
  have hb := sign_toNat_lt s
  have hw := word_normal hx hlog he he'
  set D := (e + 1074).toNat with hD
  unfold roundHalfEven
  rw [hw]
  rcases (by omega : D ≤ 1020 ∨ D = 1021 ∨ (1022 ≤ D ∧ D < 1074) ∨ 1074 ≤ D) with
    hsmall | hhalf | hmid | hlarge
  · -- below one half: a zero of the float's sign
    have hu := unpack_ofWord_zero s
    rw [roundHalfEvenWord_small hb hsmall h₁ h₂]
    refine ⟨isFinite_of_unpack_zero hu, ?_⟩
    have hv : (m : ℚ) * 2 ^ e < 1 / 2 := by
      rw [one_div, ← zpow_neg_one]
      exact (normal_lt_two_zpow_iff (-1) h₁ h₂).mpr (by omega)
    rw [value_of_unpack_zero hu, nearestEven_eq_zero hv]
    cases s <;> rfl
  · -- between one half and one: a tie goes to zero, anything above to one
    have he53 : e = -53 := by omega
    subst he53
    rw [hhalf]
    by_cases hfrac : m = 2 ^ 52
    · have hu := unpack_ofWord_zero s
      rw [hfrac, roundHalfEvenWord_half hb]
      refine ⟨isFinite_of_unpack_zero hu, ?_⟩
      rw [value_of_unpack_zero hu, show ((2 ^ 52 : ℕ) : ℚ) * 2 ^ (-53 : ℤ) = 1 / 2 by
        norm_num, nearestEven_half]
      cases s <;> rfl
    · have hm₃ : 2 ^ 52 < m := lt_of_le_of_ne h₁ (Ne.symm hfrac)
      obtain ⟨hfin, hval⟩ := ofWord_normal_value s (le_refl (2 ^ 52)) (by norm_num)
        (by norm_num : 1022 ≤ 2044)
      rw [roundHalfEvenWord_above_half hb hm₃ h₂]
      refine ⟨hfin, ?_⟩
      have hm₃ : (2 : ℚ) ^ 52 < m := by exact_mod_cast hm₃
      have hv : (m : ℚ) * 2 ^ (-53 : ℤ) = m / 2 ^ 53 := by
        simp [zpow_neg, div_eq_mul_inv]
      rw [hval, nearestEven_eq_one (by rw [hv, lt_div_iff₀ (by norm_num)]; linarith)
        (by rw [hv, div_lt_one (by norm_num)]; exact_mod_cast h₂)]
      cases s <;> norm_num [Sign.apply]
  · -- between one and `2 ^ 52`: the fractional bits are rounded off
    obtain ⟨i, hi, rfl⟩ : ∃ i : ℕ, i ≤ 51 ∧ e = -((i : ℤ) + 1) := ⟨1073 - D, by omega, by omega⟩
    have hDi : D = 1073 - i := by omega
    rw [hDi, roundHalfEvenWord_normalWord hi h₁ h₂, mul_zpow_neg_succ]
    obtain ⟨hM₁, hM₂⟩ := nearestEven_div_two_pow_bounds hi h₁ h₂
    exact ofWord_unitMultiple_value s hi hM₁ hM₂
  · -- from `2 ^ 52` on every float is an integer, left as it is
    rw [roundHalfEvenWord_large hlarge (by omega) h₁ h₂, ← hw, ofWord_word]
    refine ⟨isFinite_of_unpack_finite hx, ?_⟩
    obtain ⟨t, rfl⟩ : ∃ t : ℕ, e = t := ⟨e.toNat, by omega⟩
    rw [value_of_unpack hx, zpow_natCast, show (m : ℚ) * 2 ^ t = ((m * 2 ^ t : ℕ) : ℚ) by
      push_cast; ring, nearestEven_natCast]
    cases s <;> simp only [Sign.apply] <;> push_cast <;> ring

theorem word_zero {s : Sign} (hx : x.toModel.unpack = .zero s) :
    word x = s.toBitVec.toNat * 2 ^ 63 + 0 := by
  rw [word_of_unpack_zero hx, Nat.add_zero]

theorem roundHalfEvenWord_subnormalWord (hb : b < 2) (hm : m < 2 ^ 52) :
    roundHalfEvenWord (b * 2 ^ 63 + m) = b * 2 ^ 63 := by
  unfold roundHalfEvenWord
  rw [exponentField_subnormalWord hm]
  dsimp only
  rw [if_neg (by unfold bias; omega), if_neg (by unfold bias; omega), signedZero,
    signBit_subnormalWord hb hm, Nat.pow_eq]

end Values

section Bridge

theorem ratRoundHalfEven_of_nonneg {q : ℚ} (hq : 0 ≤ q) : ratRoundHalfEven q = nearestEven q := by
  have hfloor : q.floor = ⌊q⌋ := rfl
  have hnat : ((⌊q⌋₊ : ℤ) : ℚ) = (⌊q⌋₊ : ℚ) := by push_cast; rfl
  rw [ratRoundHalfEven, hfloor, ← Int.natCast_floor_eq_floor hq, nearestEven, hnat]
  split_ifs <;> push_cast <;> omega

theorem ratRoundHalfEven_neg_of_nonneg {q : ℚ} (hq : 0 ≤ q) :
    ratRoundHalfEven (-q) = -(nearestEven q : ℤ) := by
  set n := ⌊q⌋₊ with hn
  have hlo : (n : ℚ) ≤ q := Nat.floor_le hq
  have hhi : q < n + 1 := Nat.lt_floor_add_one q
  rcases hlo.lt_or_eq with hlt | heq
  · -- off the integers the floor of `-q` is `-n - 1`, and the fractional parts are complementary
    have hfloor : (-q).floor = -(n : ℤ) - 1 := by
      change ⌊-q⌋ = _
      rw [Int.floor_eq_iff]
      push_cast
      constructor <;> linarith
    rw [ratRoundHalfEven, hfloor, nearestEven, ← hn]
    push_cast
    have hsum : -q - (-(n : ℚ) - 1) = 1 - (q - n) := by ring
    rw [hsum]
    split_ifs <;> first | omega | (exfalso; linarith)
  · rw [← heq, show -(n : ℚ) = ((-(n : ℤ) : ℤ) : ℚ) by push_cast; rfl, ratRoundHalfEven_intCast,
      nearestEven_natCast]

theorem ratRoundHalfEven_apply (s : Sign) (m : ℕ) (e : ℤ) :
    ratRoundHalfEven ((s.apply m : ℤ) * 2 ^ e : ℚ) = s.apply (nearestEven ((m : ℚ) * 2 ^ e) : ℕ) := by
  have hq : (0 : ℚ) ≤ m * 2 ^ e := by positivity
  cases s
  · rw [show (((Sign.negative.apply m : ℤ) : ℚ) * 2 ^ e) = -((m : ℚ) * 2 ^ e) by
      simp [Sign.apply]]
    exact ratRoundHalfEven_neg_of_nonneg hq
  · simp only [Sign.apply, Int.cast_natCast]
    rw [ratRoundHalfEven_of_nonneg hq]

end Bridge

section RoundHalfEven

variable {x : Float}

/-- Rounding a finite float to the nearest integer, ties to even, on its word computes exactly
the rounding of its value: the result is finite, and its value is that integer. -/
theorem roundHalfEven_value (hx : x.isFinite = true) :
    (roundHalfEven x).isFinite = true ∧ value (roundHalfEven x) = ratRoundHalfEven (value x) := by
  change x.toModel.unpack.isFinite = true at hx
  rcases hu : x.toModel.unpack with s | _ | s | ⟨s, m, e, hm⟩ <;> rw [hu] at hx
  · cases hx
  · cases hx
  · -- a zero stays the zero it is
    have hz := unpack_ofWord_zero s
    have hword : roundHalfEven x = ofWord (s.toBitVec.toNat * 2 ^ 63) := by
      rw [roundHalfEven, word_zero hu, roundHalfEvenWord_subnormalWord (sign_toNat_lt s)
        (by norm_num)]
    rw [hword, value_of_unpack_zero hu, value_of_unpack_zero hz]
    refine ⟨isFinite_of_unpack_zero hz, ?_⟩
    rw [show (0 : ℚ) = ((0 : ℤ) : ℚ) from Int.cast_zero.symm, ratRoundHalfEven_intCast]
  · rw [value_of_unpack hu, ratRoundHalfEven_apply]
    rcases unpack_finite_shape x.toModel hu with ⟨hlog, he, he'⟩ | ⟨hsub, rfl⟩
    · exact roundHalfEven_normal hu hlog he he'
    · -- a subnormal magnitude is far below one half
      have hz := unpack_ofWord_zero s
      have hword : roundHalfEven x = ofWord (s.toBitVec.toNat * 2 ^ 63) := by
        rw [roundHalfEven, word_subnormal hu hsub,
          roundHalfEvenWord_subnormalWord (sign_toNat_lt s) hsub]
      rw [hword, value_of_unpack_zero hz, nearestEven_eq_zero (subnormal_lt_half hsub)]
      exact ⟨isFinite_of_unpack_zero hz, by cases s <;> rfl⟩

/-- Rounding moves a finite float by at most one half. -/
theorem abs_value_sub_roundHalfEven_le (hx : x.isFinite = true) :
    |value x - value (roundHalfEven x)| ≤ 1 / 2 := by
  rw [(roundHalfEven_value hx).2]
  exact abs_sub_ratRoundHalfEven_le _

end RoundHalfEven

section Truncation

/-- Truncating a normal word whose value lies in `[1, 2 ^ 52)` clears the last `i + 1` bits of
the mantissa, which are its fractional part. -/
theorem truncWord_normalWord {i : ℕ} (hi : i ≤ 51) (hm : 2 ^ 52 ≤ m) (hm' : m < 2 ^ 53) :
    truncWord (b * 2 ^ 63 + (1073 - i) * 2 ^ 52 + m) =
      b * 2 ^ 63 + (1073 - i) * 2 ^ 52 + 2 ^ (i + 1) * (m / 2 ^ (i + 1)) := by
  unfold truncWord
  rw [exponentField_normalWord (by omega) hm hm']
  dsimp only
  have hunit : Nat.pow 2 (fractionWidth - (1073 - i + 1 - bias)) = 2 ^ (i + 1) := by
    rw [Nat.pow_eq, show fractionWidth - (1073 - i + 1 - bias) = i + 1 by
      unfold fractionWidth bias; omega]
  rw [if_neg (by unfold bias; omega), if_pos (by unfold bias fractionWidth; omega), hunit,
    fields_eq_unit_mul hi]
  have hmod : (2 ^ (i + 1) * (b * 2 ^ (62 - i) + (1073 - i) * 2 ^ (51 - i)) + m) % 2 ^ (i + 1) =
      m % 2 ^ (i + 1) := by
    rw [Nat.add_mod, Nat.mul_mod_right, Nat.zero_add, Nat.mod_mod]
  have hdm := Nat.div_add_mod m (2 ^ (i + 1))
  rw [hmod]
  omega

theorem truncWord_small (hb : b < 2) (hD : D ≤ 1021) (hm : 2 ^ 52 ≤ m) (hm' : m < 2 ^ 53) :
    truncWord (b * 2 ^ 63 + D * 2 ^ 52 + m) = b * 2 ^ 63 := by
  unfold truncWord
  rw [exponentField_normalWord (by omega) hm hm']
  dsimp only
  rw [if_pos (by unfold bias; omega), signedZero_normalWord hb (by omega) hm']

theorem truncWord_subnormalWord (hb : b < 2) (hm : m < 2 ^ 52) :
    truncWord (b * 2 ^ 63 + m) = b * 2 ^ 63 := by
  unfold truncWord
  rw [exponentField_subnormalWord hm]
  dsimp only
  rw [if_pos (by unfold bias; omega), signedZero, signBit_subnormalWord hb hm, Nat.pow_eq]

theorem truncWord_large (hD : 1074 ≤ D) (hD' : D ≤ 2045) (hm : 2 ^ 52 ≤ m) (hm' : m < 2 ^ 53) :
    truncWord (b * 2 ^ 63 + D * 2 ^ 52 + m) = b * 2 ^ 63 + D * 2 ^ 52 + m := by
  unfold truncWord
  rw [exponentField_normalWord hD' hm hm']
  dsimp only
  rw [if_neg (by unfold bias; omega), if_neg (by unfold bias fractionWidth; omega)]

end Truncation

section Floor

variable {x y : Float}

theorem floor_eq_ite (x : Float) : floor x =
    if signBit (word x) = 1 ∧ truncWord (word x) ≠ word x then ofWord (truncWord (word x)) - 1
    else ofWord (truncWord (word x)) := rfl

theorem value_one : value 1 = 1 := by
  rw [value_of_unpack unpack_one]
  norm_num [Sign.apply]

/-- Subtracting one from a float that holds a non-positive integer of at most `2 ^ 52` in
magnitude is exact. -/
theorem sub_one_value {n : ℕ} (hy : y.isFinite = true) (hv : value y = -(n : ℤ))
    (hn : n ≤ 2 ^ 52) : (y - 1).isFinite = true ∧ value (y - 1) = -(n : ℤ) - 1 := by
  have hy' : HoldsInt y (-(n : ℤ)) :=
    holdsInt_of_value hy (by rw [hv]; push_cast; rfl) (by rw [abs_neg]; norm_cast; omega)
  have hone : HoldsInt 1 1 :=
    holdsInt_of_value (isFinite_of_unpack_finite unpack_one) (by rw [value_one]; rfl) (by norm_num)
  have hdiff := hy'.sub hone (by rw [abs_lt]; constructor <;> push_cast <;> omega)
  exact ⟨hdiff.isFinite, by rw [hdiff.value_eq]; push_cast; rfl⟩

theorem floor_of_truncWord_eq (ht : truncWord (word x) = word x) : floor x = x := by
  rw [floor_eq_ite, ht, if_neg (fun h => h.2 rfl), ofWord_word]

/-- A float of magnitude strictly between `n` and `n + 1` whose truncation holds `±n`: its floor
is the truncation, less one when the float is negative. -/
theorem floor_of_fraction {s : Sign} {m n : ℕ} {e : ℤ} {hm : 0 < m}
    (hu : x.toModel.unpack = .finite s m e hm) (hsb : signBit (word x) = s.toBitVec.toNat)
    (hne : truncWord (word x) ≠ word x) (hfin : (ofWord (truncWord (word x))).isFinite = true)
    (hval : value (ofWord (truncWord (word x))) = (s.apply n : ℤ)) (hn : n ≤ 2 ^ 52)
    (hlo : (n : ℚ) < m * 2 ^ e) (hhi : (m : ℚ) * 2 ^ e < n + 1) :
    (floor x).isFinite = true ∧ value (floor x) = ⌊value x⌋ := by
  rw [floor_eq_ite, value_of_unpack hu]
  cases s
  · -- a negative float: one below its truncation
    rw [if_pos ⟨hsb, hne⟩]
    obtain ⟨hfin', hval'⟩ := sub_one_value hfin (by rw [hval]; rfl) hn
    have hfloor : ⌊((Sign.negative.apply m : ℤ) : ℚ) * 2 ^ e⌋ = -(n : ℤ) - 1 := by
      rw [Int.floor_eq_iff]
      simp only [Sign.apply, Int.cast_neg, Int.cast_natCast, neg_mul]
      push_cast
      constructor <;> linarith
    exact ⟨hfin', by rw [hval', hfloor]; push_cast; ring⟩
  · -- a positive float: its truncation
    rw [if_neg (fun h => by rw [hsb] at h; exact absurd h.1 (by decide))]
    have hfloor : ⌊((Sign.positive.apply m : ℤ) : ℚ) * 2 ^ e⌋ = n := by
      rw [Int.floor_eq_iff]
      simp only [Sign.apply, Int.cast_natCast]
      constructor <;> linarith
    exact ⟨hfin, by rw [hval, hfloor]; rfl⟩

/-- A float strictly between `-1` and `1`, other than zero, has the floor `-1` or `0`: its
truncation is the zero of its sign, from which one is taken when it is negative. -/
theorem floor_of_truncWord_eq_zero {s : Sign} {m : ℕ} {e : ℤ} {hm : 0 < m}
    (hu : x.toModel.unpack = .finite s m e hm) (hsb : signBit (word x) = s.toBitVec.toNat)
    (ht : truncWord (word x) = s.toBitVec.toNat * 2 ^ 63) (hq : (m : ℚ) * 2 ^ e < 1) :
    (floor x).isFinite = true ∧ value (floor x) = ⌊value x⌋ := by
  have hz := unpack_ofWord_zero s
  have hne : truncWord (word x) ≠ word x := by
    intro h
    have h' : (ofWord (truncWord (word x))).toModel.unpack = x.toModel.unpack := by
      rw [h, ofWord_word]
    rw [ht, hz, hu] at h'
    cases h'
  refine floor_of_fraction (n := 0) hu hsb hne (by rw [ht]; exact isFinite_of_unpack_zero hz)
    (by rw [ht, value_of_unpack_zero hz]; cases s <;> rfl) (by norm_num)
    (by rw [Nat.cast_zero]; positivity) (by rwa [Nat.cast_zero, zero_add])

/-- A float of magnitude in `[1, 2 ^ 52)` with a fractional part: its truncation keeps the
integer part of the magnitude, and one is taken off when the float is negative. -/
theorem floor_of_truncWord_normal {s : Sign} {m : ℕ} {i : ℕ} {hm : 0 < m}
    (hu : x.toModel.unpack = .finite s m (-((i : ℤ) + 1)) hm) (hi : i ≤ 51)
    (h₁ : 2 ^ 52 ≤ m) (h₂ : m < 2 ^ 53) (hr : m % 2 ^ (i + 1) ≠ 0) :
    (floor x).isFinite = true ∧ value (floor x) = ⌊value x⌋ := by
  have hw := word_normal hu ((Nat.log2_eq_iff hm.ne').mpr ⟨h₁, h₂⟩) (by omega) (by omega)
  rw [show (-((i : ℤ) + 1) + 1074).toNat = 1073 - i by omega] at hw
  set n := m / 2 ^ (i + 1) with hn
  have hdm : 2 ^ (i + 1) * n + m % 2 ^ (i + 1) = m := Nat.div_add_mod m _
  have hn52 : n ≤ 2 ^ 52 :=
    calc n ≤ m / 2 := Nat.div_le_div_left (Nat.le_self_pow (by omega) 2) two_pos
      _ ≤ 2 ^ 52 := by omega
  have hT : truncWord (word x) = s.toBitVec.toNat * 2 ^ 63 + (1073 - i) * 2 ^ 52 + 2 ^ (i + 1) * n :=
    by rw [hw, truncWord_normalWord hi h₁ h₂]
  have hne : truncWord (word x) ≠ word x := by
    rw [hT, hw]
    omega
  have hM₁ : 2 ^ 52 ≤ 2 ^ (i + 1) * n := by
    rw [two_pow_52_eq hi]
    exact Nat.mul_le_mul_left _ ((Nat.le_div_iff_mul_le (by positivity)).mpr
      (by rw [Nat.mul_comm, ← two_pow_52_eq hi]; exact h₁))
  obtain ⟨hfin, hval⟩ := ofWord_unitMultiple_value s hi hM₁ (by omega)
  rw [← hT] at hfin hval
  have hP : (0 : ℚ) < 2 ^ (i + 1) := by positivity
  have hlo : (n : ℚ) < m / 2 ^ (i + 1) := by
    rw [lt_div_iff₀ hP]
    have : n * 2 ^ (i + 1) < m := by
      have := Nat.mul_comm n (2 ^ (i + 1))
      omega
    exact_mod_cast this
  have hhi : (m : ℚ) / 2 ^ (i + 1) < n + 1 := by
    rw [div_lt_iff₀ hP]
    have : m < (n + 1) * 2 ^ (i + 1) := by
      have := Nat.mod_lt m (show 0 < 2 ^ (i + 1) by positivity)
      rw [Nat.add_mul, Nat.one_mul, Nat.mul_comm]
      omega
    exact_mod_cast this
  have hsb : signBit (word x) = s.toBitVec.toNat := by
    rw [hw]
    exact signBit_normalWord (sign_toNat_lt s) (by omega) h₂
  rw [← mul_zpow_neg_succ] at hlo hhi
  exact floor_of_fraction hu hsb hne hfin hval hn52 hlo hhi

theorem floor_value_of_truncWord_eq (hx : x.isFinite = true) (ht : truncWord (word x) = word x)
    {k : ℤ} (hv : value x = k) : (floor x).isFinite = true ∧ value (floor x) = ⌊value x⌋ := by
  rw [floor_of_truncWord_eq ht, hv, Int.floor_intCast]
  exact ⟨hx, rfl⟩

theorem floor_of_unpack_zero {s : Sign} (hu : x.toModel.unpack = .zero s) : floor x = x := by
  apply floor_of_truncWord_eq
  have ht := truncWord_subnormalWord (m := 0) (sign_toNat_lt s) (by norm_num)
  rwa [Nat.add_zero, ← Nat.add_zero (_ * 2 ^ 63), ← word_zero hu] at ht

/-- A float of magnitude below one keeps its sign bit in the word, and truncates to the zero of
its sign. -/
theorem truncWord_of_lt_one {s : Sign} {m : ℕ} {e : ℤ} {hm : 0 < m}
    (hu : x.toModel.unpack = .finite s m e hm) (hq : (m : ℚ) * 2 ^ e < 1) :
    signBit (word x) = s.toBitVec.toNat ∧ truncWord (word x) = s.toBitVec.toNat * 2 ^ 63 := by
  rcases unpack_finite_shape x.toModel hu with ⟨hlog, he, he'⟩ | ⟨hsub, rfl⟩
  · obtain ⟨h₁, h₂⟩ := mantissa_bounds_of_log2 hm hlog
    have hsmall := (normal_lt_one_iff h₁ h₂).mp hq
    rw [word_normal hu hlog he he']
    exact ⟨signBit_normalWord (sign_toNat_lt s) (by omega) h₂,
      truncWord_small (sign_toNat_lt s) (by omega) h₁ h₂⟩
  · rw [word_subnormal hu hsub]
    exact ⟨signBit_subnormalWord (sign_toNat_lt s) hsub,
      truncWord_subnormalWord (sign_toNat_lt s) hsub⟩

/-- The floor of a finite float is finite and its value is the floor of the value. -/
theorem floor_value (hx : x.isFinite = true) :
    (floor x).isFinite = true ∧ value (floor x) = ⌊value x⌋ := by
  have hx' : x.toModel.unpack.isFinite = true := hx
  rcases hu : x.toModel.unpack with s | _ | s | ⟨s, m, e, hm⟩ <;> rw [hu] at hx'
  · cases hx'
  · cases hx'
  · rw [floor_of_unpack_zero hu, value_of_unpack_zero hu]
    exact ⟨hx, by simp⟩
  by_cases hq : (m : ℚ) * 2 ^ e < 1
  · -- a magnitude below one
    obtain ⟨hsb, ht⟩ := truncWord_of_lt_one hu hq
    exact floor_of_truncWord_eq_zero hu hsb ht hq
  obtain ⟨hlog, he, he'⟩ : m.log2 = 52 ∧ -1074 ≤ e ∧ e ≤ 971 := by
    rcases unpack_finite_shape x.toModel hu with h | ⟨hsub, rfl⟩
    · exact h
    · exact absurd ((subnormal_lt_half hsub).trans (by norm_num)) hq
  obtain ⟨h₁, h₂⟩ := mantissa_bounds_of_log2 hm hlog
  have hmid : -52 ≤ e := not_lt.mp fun h => hq ((normal_lt_one_iff h₁ h₂).mpr h)
  have hw := word_normal hu hlog he he'
  rcases lt_or_ge e 0 with hneg | hpos
  · -- a fractional exponent: the low `-e` bits of the mantissa are the fraction
    obtain ⟨i, rfl⟩ : ∃ i : ℕ, e = -((i : ℤ) + 1) := ⟨(-e - 1).toNat, by omega⟩
    by_cases hr : m % 2 ^ (i + 1) = 0
    · set n := m / 2 ^ (i + 1) with hn
      have hdm : 2 ^ (i + 1) * n + m % 2 ^ (i + 1) = m := Nat.div_add_mod m _
      refine floor_value_of_truncWord_eq hx ?_ (k := s.apply n) ?_
      · rw [hw, show (-((i : ℤ) + 1) + 1074).toNat = 1073 - i by omega,
          truncWord_normalWord (by omega) h₁ h₂, ← hn]
        omega
      · rw [value_of_unpack hu, mul_zpow_neg_succ]
        have hcast : (m : ℚ) = 2 ^ (i + 1) * n := by exact_mod_cast (by omega : m = 2 ^ (i + 1) * n)
        cases s <;> simp only [Sign.apply, Int.cast_neg, Int.cast_natCast] <;> rw [hcast] <;>
          field_simp
    · exact floor_of_truncWord_normal hu (by omega) h₁ h₂ hr
  · -- a non-negative exponent: an integer
    obtain ⟨t, rfl⟩ : ∃ t : ℕ, e = t := ⟨e.toNat, (Int.toNat_of_nonneg hpos).symm⟩
    refine floor_value_of_truncWord_eq hx ?_ (k := s.apply (m * 2 ^ t : ℕ)) ?_
    · rw [hw]
      exact truncWord_large (by omega) (by omega) h₁ h₂
    · rw [value_of_unpack hu, zpow_natCast]
      cases s <;> simp only [Sign.apply] <;> push_cast <;> ring

theorem ofWord_zero : ofWord 0 = 0 := rfl

/-- A float of the positive sign and of value below one has the positive zero as its floor. -/
theorem floor_eq_zero_of_lt_one (hx : x.isFinite = true) (hs : HasPositiveSign x)
    (h : value x < 1) : floor x = 0 := by
  have hx' : x.toModel.unpack.isFinite = true := hx
  unfold HasPositiveSign at hs
  rcases hu : x.toModel.unpack with s | _ | s | ⟨s, m, e, hm⟩ <;> rw [hu] at hx' hs
  · cases hx'
  · cases hx'
  · obtain rfl : s = .positive := hs
    rw [floor_of_unpack_zero hu]
    exact eq_of_unpack_eq (hu.trans unpack_zero.symm)
  · obtain rfl : s = .positive := hs
    have hq : (m : ℚ) * 2 ^ e < 1 := by
      rwa [value_of_unpack hu, Sign.apply, Int.cast_natCast] at h
    obtain ⟨hsb, ht⟩ := truncWord_of_lt_one hu hq
    have h0 : Sign.positive.toBitVec.toNat = 0 := rfl
    rw [floor_eq_ite, if_neg (by rw [hsb, h0]; simp), ht, h0, Nat.zero_mul, ofWord_zero]

end Floor

section Differences

variable {x y : Float}

theorem isFinite_neg (x : Float) : (-x).isFinite = x.isFinite := by
  change (-x).toModel.unpack.isFinite = x.toModel.unpack.isFinite
  rw [unpack_neg]
  cases x.toModel.unpack <;> rfl

theorem value_neg (x : Float) : value (-x) = -value x := by
  unfold value
  rw [unpack_neg]
  cases x.toModel.unpack <;> simp [UnpackedFloat.neg, apply_neg_sign]

theorem sub_eq_add_neg_float (x y : Float) : x - y = x + -y :=
  eq_of_unpack_eq (by rw [unpack_sub, unpack_add, unpack_neg, sub_eq_add_neg])

theorem sub_eq_neg_sub_neg (x y : Float) : x - y = -y - -x :=
  eq_of_unpack_eq (by
    rw [unpack_sub, unpack_sub, unpack_neg, unpack_neg, sub_eq_add_neg, sub_eq_add_neg,
      UnpackedFloat.neg_neg, add_comm])

theorem sub_zero_eq (x : Float) : x - 0 = x := by
  apply eq_of_unpack_eq
  have hsub : sub .binary64 x.toModel.unpack (.zero .positive) = x.toModel.unpack := by
    cases x.toModel.unpack with
    | zero s => cases s <;> rfl
    | _ => rfl
  rw [unpack_sub, unpack_zero, hsub]
  exact unpack_pack_unpack x

theorem roundsFrom_zero : RoundsFrom 0 0 := .inl ⟨rfl, .positive, unpack_zero⟩

/-- The difference of two finite floats whose exact difference is non-negative rounds from it,
whatever the signs: with a negative subtrahend it is a sum of non-negative floats, and with a
negative minuend it is the difference of the negations. -/
theorem RoundsFrom.sub_of_le (hx : x.isFinite = true) (hy : y.isFinite = true)
    (hyx : value y ≤ value x) : RoundsFrom (x - y) (value x - value y) := by
  rcases le_or_gt 0 (value y) with hy0 | hy0
  · exact RoundsFrom.sub hx hy hy0 hyx
  rcases le_or_gt 0 (value x) with hx0 | hx0
  · have h := RoundsFrom.add hx (by rwa [isFinite_neg]) hx0 (by rw [value_neg]; linarith)
    rwa [value_neg, ← sub_eq_add_neg_float, ← show value x - value y = value x + -value y by ring] at h
  · have h := RoundsFrom.sub (x := -y) (y := -x) (by rwa [isFinite_neg]) (by rwa [isFinite_neg])
      (by rw [value_neg]; linarith) (by rw [value_neg, value_neg]; linarith)
    rwa [value_neg, value_neg, neg_sub_neg, ← sub_eq_neg_sub_neg] at h

theorem le_of_value_le (hx : x.isFinite = true) (hy : y.isFinite = true) (hx0 : 0 ≤ value x)
    (h : value x ≤ value y) : x ≤ y :=
  (roundsFrom_self hx hx0).le (roundsFrom_self hy (hx0.trans h)) h

/-- A rounding of a value not above a finite float of non-negative value is finite, and its
value lies between zero and that float's. -/
theorem RoundsFrom.value_mem (hx : RoundsFrom x v) (hy : y.isFinite = true) (hy0 : 0 ≤ value y)
    (hv : v ≤ value y) : x.isFinite = true ∧ 0 ≤ value x ∧ value x ≤ value y := by
  have hv0 : 0 ≤ v := by
    rcases hx with ⟨rfl, -⟩ | ⟨hv, -⟩
    · exact le_rfl
    · exact hv.le
  have hle : x ≤ y := hx.le (roundsFrom_self hy hy0) hv
  have h0 : (0 : Float) ≤ x := roundsFrom_zero.le hx hv0
  have hfin := isFinite_of_le h0 hle hy
  exact ⟨hfin, value_nonneg_of_zero_le h0 hfin, value_le_of_le hfin hy hle⟩

/-- A finite float of non-negative value has the positive sign, and one of non-positive value
the negative sign. -/
theorem sign_eq_positive {s : Sign} {m : ℕ} {e : ℤ} {hm : 0 < m}
    (hu : x.toModel.unpack = .finite s m e hm) (h : 0 ≤ value x) : s = .positive := by
  rw [value_of_unpack hu] at h
  cases s
  · have : (0 : ℚ) < m * 2 ^ e := by positivity
    simp only [Sign.apply, Int.cast_neg, Int.cast_natCast, neg_mul] at h
    linarith
  · rfl

theorem sign_eq_negative {s : Sign} {m : ℕ} {e : ℤ} {hm : 0 < m}
    (hu : x.toModel.unpack = .finite s m e hm) (h : value x ≤ 0) : s = .negative := by
  rw [value_of_unpack hu] at h
  cases s
  · rfl
  · have : (0 : ℚ) < m * 2 ^ e := by positivity
    simp only [Sign.apply, Int.cast_natCast] at h
    linarith

/-- A difference whose exact value is non-negative has the positive sign: an exact
cancellation gives the positive zero, except for the negative zero minus the positive one. -/
theorem hasPositiveSign_sub (hx : x.isFinite = true) (hy : y.isFinite = true)
    (hyx : value y ≤ value x)
    (hz : ¬(x.toModel.unpack = .zero .negative ∧ y.toModel.unpack = .zero .positive)) :
    HasPositiveSign (x - y) := by
  unfold HasPositiveSign
  rw [unpack_sub]
  apply HasSign.unpack_pack
  have hx' : x.toModel.unpack.isFinite = true := hx
  have hy' : y.toModel.unpack.isFinite = true := hy
  rcases hu : x.toModel.unpack with s | _ | s | ⟨s, m, e, hm⟩ <;> rw [hu] at hx' hz <;>
    (try cases hx') <;>
    rcases hv : y.toModel.unpack with t | _ | t | ⟨t, n, f, hn⟩ <;> rw [hv] at hy' hz <;>
    (try cases hy')
  · -- two zeros
    cases s <;> cases t <;> simp_all [UnpackedFloat.sub, HasSign]
  · -- zero minus a float of negative value
    rw [value_of_unpack_zero hu] at hyx
    obtain rfl := sign_eq_negative hv hyx
    rfl
  · -- a float of positive value minus a zero
    rw [value_of_unpack_zero hv] at hyx
    obtain rfl := sign_eq_positive hu hyx
    rfl
  · -- the exact difference at the smaller exponent is not negative
    obtain ⟨M, hsub, hM⟩ := sub_finite s t hm hn
    have hval : value x - value y = M * 2 ^ min e f := by
      rw [hM, value_of_unpack hu, value_of_unpack hv]
    have hM0 : (0 : ℚ) ≤ M :=
      (mul_nonneg_iff_of_pos_right (by positivity)).mp (hval ▸ sub_nonneg.mpr hyx)
    rw [hsub]
    exact hasSign_normalize_of_nonneg _ (by exact_mod_cast hM0) _

theorem value_half : (0.5 : Float).isFinite = true ∧ value 0.5 = 1 / 2 := by
  have hhalf : (0.5 : Float) =
      ofWord (Sign.positive.toBitVec.toNat * 2 ^ 63 + 1021 * 2 ^ 52 + 2 ^ 52) := by
    rw [← ofWord_word 0.5]
    rfl
  obtain ⟨hfin, hval⟩ :=
    ofWord_normal_value .positive (M := 2 ^ 52) (D := 1021) le_rfl (by norm_num) (by norm_num)
  rw [hhalf]
  refine ⟨hfin, ?_⟩
  rw [hval]
  norm_num [Sign.apply]

/-- A finite float less its nearest integer is finite and at most one half in magnitude: the
difference rounds from the exact one, whose magnitude is at most one half. -/
theorem sub_roundHalfEven_value (hx : x.isFinite = true) :
    (x - roundHalfEven x).isFinite = true ∧ |value (x - roundHalfEven x)| ≤ 1 / 2 := by
  obtain ⟨hq, -⟩ := roundHalfEven_value hx
  have hd := abs_le.mp (abs_value_sub_roundHalfEven_le hx)
  obtain ⟨hhalf, hhalf'⟩ := value_half
  rcases le_total (value (roundHalfEven x)) (value x) with h | h
  · -- rounded down: the difference is not negative
    obtain ⟨hfin, h₀, h₁⟩ := (RoundsFrom.sub_of_le hx hq h).value_mem hhalf (by rw [hhalf']; norm_num)
      (by rw [hhalf']; exact hd.2)
    exact ⟨hfin, abs_le.mpr ⟨by linarith, by linarith⟩⟩
  · -- rounded up: the difference is the negation of one that is not negative
    obtain ⟨hfin, h₀, h₁⟩ := (RoundsFrom.sub_of_le hq hx h).value_mem hhalf (by rw [hhalf']; norm_num)
      (by rw [hhalf']; linarith [hd.1])
    rcases eqUpToZeroSign_iff.mp (eqUpToZeroSign_sub_swap (roundHalfEven x) x) with heq | ⟨hz, -⟩
    · rw [heq, isFinite_neg, value_neg, abs_neg, abs_of_nonneg h₀]
      exact ⟨hfin, hhalf' ▸ h₁⟩
    · obtain ⟨s, hs⟩ := (beq_zero_iff _).mp hz
      rw [value_of_unpack_zero hs]
      exact ⟨isFinite_of_unpack_zero hs, by norm_num⟩

end Differences

end CrystalLattice.Binary64
