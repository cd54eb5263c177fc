import Mathlib
import CrystalLattice.Proofs.Binary64IntegerParts

/-!
# Division in binary64

Division computes an integer quotient at an exponent and records the remainder as the accuracy
of the quotient. An extended mantissa stands for a non-negative rational (`Represents`), shifts
keep that, and rounding it rounds the rational; so the quotient of two floats rounds from the
exact quotient (`RoundsFrom.div`), like the other operations.
-/

namespace CrystalLattice.Binary64

open Float.Model Float.Model.UnpackedFloat

/-- An extended mantissa stands for the non-negative rational `x`: the integer part, and bits
for a fractional part of at least one half and for one that is neither zero nor one half. -/
structure Represents (em : ExtendedMantissa) (x : ℚ) : Prop where
  nonneg : 0 ≤ x
  mantissa_eq : em.mantissa = ⌊x⌋₊
  roundBit_eq : em.roundBit = decide (1 / 2 ≤ x - ⌊x⌋₊)
  stickyBit_eq : em.stickyBit = decide (x - ⌊x⌋₊ ≠ 0 ∧ x - ⌊x⌋₊ ≠ 1 / 2)

variable {em : ExtendedMantissa} {x : ℚ}

theorem floor_half_of_split {n : ℕ} {f : ℚ} (hf0 : 0 ≤ f) (hf1 : f < 1) :
    ⌊((n : ℚ) + f) / 2⌋₊ = n / 2 ∧
      ((n : ℚ) + f) / 2 - (n / 2 : ℕ) = ((n % 2 : ℕ) + f) / 2 := by
  have hdm : ((n / 2 : ℕ) : ℚ) * 2 + (n % 2 : ℕ) = n := by exact_mod_cast Nat.div_add_mod' n 2
  have hbit : ((n % 2 : ℕ) : ℚ) ≤ 1 := by exact_mod_cast Nat.le_of_lt_succ (Nat.mod_lt n two_pos)
  have hbit0 : (0 : ℚ) ≤ (n % 2 : ℕ) := Nat.cast_nonneg _
  refine ⟨?_, by linarith⟩
  rw [Nat.floor_eq_iff (by positivity)]
  constructor <;> linarith

theorem Represents.shiftRightOne (h : Represents em x) : Represents em.shiftRightOne (x / 2) := by
  obtain ⟨hx, hm, hr, hs⟩ := h
  have hf0 : 0 ≤ x - ⌊x⌋₊ := sub_nonneg.mpr (Nat.floor_le hx)
  have hf1 : x - ⌊x⌋₊ < 1 := by linarith [Nat.lt_floor_add_one x]
  have hx' : x = (⌊x⌋₊ : ℚ) + (x - ⌊x⌋₊) := by ring
  obtain ⟨hfloor, hfrac⟩ := floor_half_of_split (n := ⌊x⌋₊) hf0 hf1
  rw [← hx'] at hfloor hfrac
  generalize x - ⌊x⌋₊ = f at hf0 hf1 hr hs hfrac
  refine ⟨by positivity, by simp [ExtendedMantissa.shiftRightOne, hfloor, hm], ?_, ?_⟩
  · simp only [ExtendedMantissa.shiftRightOne, hfloor, hfrac, hm]
    rcases Nat.mod_two_eq_zero_or_one ⌊x⌋₊ with hb | hb <;> rw [hb]
    · rw [decide_eq_false (by push_cast; linarith)]
      rfl
    · rw [decide_eq_true (by push_cast; linarith)]
      rfl
  · -- both sides say that the fractional part of `x` is not zero
    have hsticky : (decide (1 / 2 ≤ f) || decide (f ≠ 0 ∧ f ≠ 1 / 2)) = decide (f ≠ 0) := by
      rw [← Bool.decide_or]
      refine decide_eq_decide.mpr ⟨?_, fun hz => ?_⟩
      · rintro (hh | ⟨hz, -⟩) h0 <;> [linarith; exact hz h0]
      · by_cases hh : 1 / 2 ≤ f
        · exact .inl hh
        · exact .inr ⟨hz, fun h => hh h.ge⟩
    simp only [ExtendedMantissa.shiftRightOne, hfloor, hfrac, hr, hs, hsticky]
    refine decide_eq_decide.mpr ⟨fun hz => ⟨fun h0 => hz ?_, fun hh => hz ?_⟩, fun h hz => ?_⟩
    · rcases Nat.mod_two_eq_zero_or_one ⌊x⌋₊ with hb | hb <;> rw [hb] at h0 <;> push_cast at h0 <;>
        linarith
    · rcases Nat.mod_two_eq_zero_or_one ⌊x⌋₊ with hb | hb <;> rw [hb] at hh <;> push_cast at hh <;>
        linarith
    · rcases Nat.mod_two_eq_zero_or_one ⌊x⌋₊ with hb | hb <;> rw [hb, hz] at h <;> norm_num at h

theorem Represents.shiftRight (h : Represents em x) (k : ℕ) :
    Represents (em >>> k) (x / 2 ^ k) := by
  induction k with
  | zero =>
    rw [pow_zero, div_one]
    exact h
  | succ k ih =>
    rw [pow_succ, ← div_div]
    exact ih.shiftRightOne

theorem Represents.roundedMantissa (h : Represents em x) : em.roundedMantissa = nearestEven x := by
  obtain ⟨-, hm, hr, hs⟩ := h
  obtain ⟨m, r, s⟩ := em
  dsimp only at hm hr hs
  subst hm
  unfold nearestEven
  cases r <;> cases s
  · rw [if_pos (by simpa using of_decide_eq_false hr.symm)]
    rfl
  · rw [if_pos (by simpa using of_decide_eq_false hr.symm)]
    rfl
  · have h₁ : 1 / 2 ≤ x - ⌊x⌋₊ := of_decide_eq_true hr.symm
    have h₂ : ¬(x - ⌊x⌋₊ ≠ 0 ∧ x - ⌊x⌋₊ ≠ 1 / 2) := of_decide_eq_false hs.symm
    have hf : x - ⌊x⌋₊ = 1 / 2 := by
      by_contra hne
      exact h₂ ⟨by linarith, hne⟩
    rw [if_neg hf.not_lt, if_neg hf.symm.not_lt]
    rfl
  · have h₁ : 1 / 2 ≤ x - ⌊x⌋₊ := of_decide_eq_true hr.symm
    have h₂ : x - ⌊x⌋₊ ≠ 0 ∧ x - ⌊x⌋₊ ≠ 1 / 2 := of_decide_eq_true hs.symm
    have hf : 1 / 2 < x - ⌊x⌋₊ := lt_of_le_of_ne h₁ (Ne.symm h₂.2)
    rw [if_neg (not_lt.mpr h₁), if_pos hf]
    rfl

theorem represents_exact (N : ℕ) : Represents (ExtendedMantissa.ofMantissaAndAccuracy N .exact) N :=
  ⟨by positivity, by simp [ExtendedMantissa.ofMantissaAndAccuracy],
    by simp [ExtendedMantissa.ofMantissaAndAccuracy], by simp [ExtendedMantissa.ofMantissaAndAccuracy]⟩

theorem represents_fraction (N : ℕ) {r d : ℕ} (hrd : r < d) :
    Represents (ExtendedMantissa.ofMantissaAndAccuracy N (accuracyOfFraction r d))
      (N + r / d) := by
  have hd : (0 : ℚ) < d := by exact_mod_cast (Nat.zero_le r).trans_lt hrd
  have hf0 : (0 : ℚ) ≤ r / d := by positivity
  have hf1 : (r : ℚ) / d < 1 := by
    rw [div_lt_one hd]
    exact_mod_cast hrd
  have hfloor : ⌊(N : ℚ) + r / d⌋₊ = N := by
    rw [Nat.floor_eq_iff (by positivity)]
    constructor <;> linarith
  have hfrac : (N : ℚ) + r / d - ⌊(N : ℚ) + r / d⌋₊ = r / d := by
    rw [hfloor]
    ring
  have htwice : ∀ {a b : ℚ}, 0 < b → (a / b < 1 / 2 ↔ 2 * a < b) ∧ (a / b = 1 / 2 ↔ 2 * a = b) :=
    fun hb => ⟨by rw [div_lt_iff₀ hb]; constructor <;> intro <;> linarith,
      by rw [div_eq_iff hb.ne']; constructor <;> intro <;> linarith⟩
  have hlt := (htwice (a := r) hd).1
  have heq := (htwice (a := r) hd).2
  refine ⟨by positivity, ?_, ?_, ?_⟩
  · rw [hfloor]
    unfold accuracyOfFraction
    split_ifs
    · rfl
    · cases compare (2 * r) d <;> rfl
  · rw [hfrac]
    unfold accuracyOfFraction
    split_ifs with hr
    · subst hr
      rw [Nat.cast_zero, zero_div, decide_eq_false (by norm_num)]
      rfl
    · rcases lt_trichotomy (2 * r) d with h | h | h
      · rw [compare_lt_iff_lt.mpr h, decide_eq_false]
        · rfl
        · rw [not_le, hlt]
          exact_mod_cast h
      · rw [compare_eq_iff_eq.mpr h, decide_eq_true]
        · rfl
        · rw [heq.mpr (by exact_mod_cast h)]
      · rw [compare_gt_iff_gt.mpr h, decide_eq_true]
        · rfl
        · refine le_of_lt (lt_of_not_ge fun hle => ?_)
          rcases hle.lt_or_eq with hl | he
          · have := hlt.mp hl
            have : (d : ℚ) < 2 * r := by exact_mod_cast h
            linarith
          · have := heq.mp he
            have : (d : ℚ) < 2 * r := by exact_mod_cast h
            linarith
  · rw [hfrac]
    unfold accuracyOfFraction
    split_ifs with hr
    · subst hr
      rw [Nat.cast_zero, zero_div, decide_eq_false (by simp)]
      rfl
    · have hpos : (r : ℚ) / d ≠ 0 := by positivity
      rcases lt_trichotomy (2 * r) d with h | h | h
      · have h' : (2 * r : ℚ) < d := by exact_mod_cast h
        rw [compare_lt_iff_lt.mpr h, decide_eq_true ⟨hpos, fun he => by linarith [heq.mp he]⟩]
        rfl
      · rw [compare_eq_iff_eq.mpr h,
          decide_eq_false fun hne => hne.2 (heq.mpr (by exact_mod_cast h))]
        rfl
      · have h' : (d : ℚ) < 2 * r := by exact_mod_cast h
        rw [compare_gt_iff_gt.mpr h, decide_eq_true ⟨hpos, fun he => by linarith [heq.mp he]⟩]
        rfl

/-- Rounding a mantissa with an accuracy that stands for `x` rounds `x · 2 ^ E`, when `E` is at
most the target exponent and that is the rounding exponent of the value. -/
theorem roundWithAccuracy_of_represents {P : ℕ} {E : ℤ} {acc : Accuracy} {x : ℚ}
    (hx : Represents (ExtendedMantissa.ofMantissaAndAccuracy P acc) x)
    (hE : E ≤ Format.binary64.targetExponent (totalExponent P E))
    (hte : roundingExponent (x * 2 ^ E) = Format.binary64.targetExponent (totalExponent P E)) :
    roundWithAccuracy .binary64 .positive P E acc = roundPositive (x * 2 ^ E) := by
  set te := Format.binary64.targetExponent (totalExponent P E)
  have htarget : te = max ((P.log2 : ℤ) + 1 + E - 53) (-1074) := rfl
  obtain ⟨k, hk⟩ : ∃ k : ℕ, te = E + k := ⟨(te - E).toNat, by omega⟩
  have hr : (ExtendedMantissa.ofMantissaAndAccuracy P acc >>> k).roundedMantissa =
      nearestEven (x * 2 ^ E / 2 ^ te) := by
    rw [(hx.shiftRight k).roundedMantissa, hk, zpow_add₀ (by norm_num), zpow_natCast]
    congr 1
    field_simp
  have hk' : (max ((P.log2 : ℤ) + 1 + E - 53) (-1074) - E).toNat = k := by omega
  have hfirst : shiftToTargetExponent .binary64 P E acc =
      (ExtendedMantissa.ofMantissaAndAccuracy P acc >>> k, te) := by
    rw [shiftToTargetExponent_binary64, hk', hk]
  rw [roundWithAccuracy_binary64 .positive hfirst, hr, roundPositive, hte]
  rfl

theorem unpack_div (x y : Float) : (x / y).toModel.unpack =
    unpack .binary64 (pack .binary64 (div .binary64 x.toModel.unpack y.toModel.unpack)) := rfl

theorem log_add_fraction_mul_zpow {N : ℕ} (hN : 0 < N) {f : ℚ} (hf0 : 0 ≤ f) (hf1 : f < 1)
    (E : ℤ) : Int.log 2 ((N + f) * 2 ^ E) = N.log2 + E := by
  have hv : (0 : ℚ) < (N + f) * 2 ^ E := by positivity
  have hlo : (2 : ℚ) ^ ((N.log2 : ℤ) + E) ≤ (N + f) * 2 ^ E := by
    rw [zpow_add₀ (by norm_num), zpow_natCast]
    have : (2 : ℚ) ^ N.log2 ≤ N := by exact_mod_cast Nat.log2_self_le hN.ne'
    gcongr
    linarith
  have hhi : (N + f) * 2 ^ E < (2 : ℚ) ^ ((N.log2 : ℤ) + E + 1) := by
    rw [add_right_comm, zpow_add₀ (by norm_num), ← Nat.cast_succ, zpow_natCast]
    have : (N : ℚ) + 1 ≤ 2 ^ N.log2.succ := by exact_mod_cast Nat.lt_log2_self
    gcongr
    linarith
  have h₁ : (N.log2 : ℤ) + E ≤ Int.log 2 ((N + f) * 2 ^ E) :=
    (Int.zpow_le_iff_le_log (show 1 < 2 by norm_num) hv).mp (by exact_mod_cast hlo)
  have h₂ : Int.log 2 ((N + f) * 2 ^ E) < N.log2 + E + 1 :=
    (Int.lt_zpow_iff_log_lt (show 1 < 2 by norm_num) hv).mp (by exact_mod_cast hhi)
  omega

theorem roundingExponent_of_lt_zpow {v : ℚ} (hv : 0 < v) {E : ℤ} (hE : E ≤ -1074)
    (hlt : v < 2 ^ E) : roundingExponent v = -1074 := by
  have hlog : Int.log 2 v < E :=
    (Int.lt_zpow_iff_log_lt (show 1 < 2 by norm_num) hv).mp (by exact_mod_cast hlt)
  have : roundingExponent v = max (Int.log 2 v + 1 - 53) (-1074) := rfl
  omega

theorem roundWithAccuracy_divCore {m₁ m₂ : ℕ} (hm₁ : 0 < m₁) (hm₁' : m₁ < 2 ^ 53) (hm₂ : 0 < m₂)
    (e₁ e₂ : ℤ) :
    roundWithAccuracy .binary64 .positive (divCore .binary64 m₁ e₁ m₂ e₂).1
        (divCore .binary64 m₁ e₁ m₂ e₂).2.1 (divCore .binary64 m₁ e₁ m₂ e₂).2.2 =
      roundPositive ((m₁ : ℚ) * 2 ^ e₁ / (m₂ * 2 ^ e₂)) := by
  set E := min (e₁ - e₂) (max (totalExponent m₁ e₁ - totalExponent m₂ e₂ - 53) (-1074)) with hEdef
  set s := (e₁ - e₂ - E).toNat with hs
  set N := (m₁ <<< s) / m₂ with hN
  set r := (m₁ <<< s) % m₂ with hr
  have hcore : divCore .binary64 m₁ e₁ m₂ e₂ = (N, E, accuracyOfFraction r m₂) := rfl
  rw [hcore]
  dsimp only
  have hl₁ := Nat.log2_self_le hm₁.ne'
  have hl₂ : m₂ < 2 ^ (m₂.log2 + 1) := Nat.lt_log2_self
  have hl₁' : m₁.log2 < 53 := (Nat.log2_lt hm₁.ne').mpr hm₁'
  have htot : ∀ m e, totalExponent m e = m.log2 + 1 + e := fun _ _ => rfl
  rw [htot, htot] at hEdef
  have hdm : N * m₂ + r = m₁ * 2 ^ s := by
    rw [hN, hr, ← Nat.shiftLeft_eq]
    exact Nat.div_add_mod' _ _
  have hval : ((N : ℚ) + r / m₂) * 2 ^ E = m₁ * 2 ^ e₁ / (m₂ * 2 ^ e₂) := by
    have hq : (N : ℚ) + r / m₂ = m₁ * 2 ^ s / m₂ := by
      rw [eq_div_iff (by positivity), add_mul, div_mul_cancel₀ _ (by positivity)]
      exact_mod_cast hdm
    have h2 : (2 : ℚ) ^ s * 2 ^ E = 2 ^ e₁ / 2 ^ e₂ := by
      rw [← zpow_natCast, ← zpow_add₀ two_ne_zero, ← zpow_sub₀ two_ne_zero]
      congr 1
      omega
    rw [hq]
    calc (m₁ : ℚ) * 2 ^ s / m₂ * 2 ^ E = m₁ * (2 ^ s * 2 ^ E) / m₂ := by ring
      _ = m₁ * (2 ^ e₁ / 2 ^ e₂) / m₂ := by rw [h2]
      _ = m₁ * 2 ^ e₁ / (m₂ * 2 ^ e₂) := by field_simp
  have hbig : -1074 < E → 2 ^ 52 ≤ N := by
    intro hE
    have hsval : (s : ℤ) = 53 - m₁.log2 + m₂.log2 := by omega
    have hM : 2 ^ 52 * m₂ ≤ m₁ <<< s := by
      rw [Nat.shiftLeft_eq]
      calc 2 ^ 52 * m₂ ≤ 2 ^ 52 * 2 ^ (m₂.log2 + 1) := Nat.mul_le_mul_left _ hl₂.le
        _ = 2 ^ (m₁.log2 + s) := by rw [← pow_add]; congr 1; omega
        _ ≤ m₁ * 2 ^ s := by rw [pow_add]; exact Nat.mul_le_mul_right _ hl₁
    exact (Nat.le_div_iff_mul_le hm₂).mpr hM
  have hE : E ≤ Format.binary64.targetExponent (totalExponent N E) := by
    rw [targetExponent_binary64, htot]
    by_cases hE : -1074 < E
    · have hlog : 52 ≤ N.log2 :=
        (Nat.le_log2 (Nat.ne_of_gt (lt_of_lt_of_le (by norm_num) (hbig hE)))).mpr (hbig hE)
      omega
    · omega
  refine hval ▸ roundWithAccuracy_of_represents (represents_fraction N (Nat.mod_lt _ hm₂)) hE ?_
  have hf0 : (0 : ℚ) ≤ r / m₂ := by positivity
  have hf1 : (r : ℚ) / m₂ < 1 := by
    rw [div_lt_one (by positivity)]
    exact_mod_cast Nat.mod_lt _ hm₂
  rw [targetExponent_binary64, htot]
  rcases Nat.eq_zero_or_pos N with h0 | hpos
  · -- a quotient below one unit: only at the least exponent, where both exponents are it
    have hE' : E ≤ -1074 := by
      by_contra hgt
      have := hbig (by omega)
      omega
    have hr0 : 0 < r := by
      have : 0 < m₁ * 2 ^ s := by positivity
      rw [h0] at hdm
      omega
    rw [h0, Nat.cast_zero, zero_add]
    rw [roundingExponent_of_lt_zpow (by positivity) hE' ?_]
    · simp only [Nat.log2_zero, Nat.cast_zero]
      omega
    · calc (r : ℚ) / m₂ * 2 ^ E < 1 * 2 ^ E := by gcongr
        _ = 2 ^ E := one_mul _
  · rw [roundingExponent, log_add_fraction_mul_zpow hpos hf0 hf1, targetExponent_binary64]
    ring_nf

variable {x y : Float}

/-- A quotient of a non-negative float by a positive one rounds from the exact quotient. -/
theorem RoundsFrom.div (hx : x.isFinite = true) (hy : y.isFinite = true) (hx0 : 0 ≤ value x)
    (hy0 : 0 < value y) : RoundsFrom (x / y) (value x / value y) := by
  obtain ⟨n, f, hn, hv⟩ : ∃ n f hn, y.toModel.unpack = .finite .positive n f hn := by
    rcases unpack_of_value_nonneg hy hy0.le with ⟨t, hv⟩ | h
    · simp [value_of_unpack_zero hv] at hy0
    · exact h
  rcases unpack_of_value_nonneg hx hx0 with ⟨s, hu⟩ | ⟨m, e, hm, hu⟩
  · exact .inl ⟨by rw [value_of_unpack_zero hu, zero_div], _,
      by rw [unpack_div, hu, hv]; exact unpack_pack_zero _⟩
  · have hm53 : m < 2 ^ 53 := by
      rcases unpack_finite_shape x.toModel hu with ⟨hl, -⟩ | ⟨hl, -⟩
      · exact (mantissa_bounds_of_log2 hm hl).2
      · omega
    have hval : value x / value y = (m : ℚ) * 2 ^ e / (n * 2 ^ f) := by
      simp [value_of_unpack hu, value_of_unpack hv, Sign.apply]
    refine .inr ⟨by rw [hval]; positivity, ?_⟩
    rw [unpack_div, hu, hv, hval, ← roundWithAccuracy_divCore hm hm53 hn e f]
    rfl

section Sign

theorem sign_neg_div (s t : Sign) : -s / t = -(s / t) := by cases s <;> cases t <;> rfl

theorem sign_div_neg (s t : Sign) : s / -t = -(s / t) := by cases s <;> cases t <;> rfl

theorem div_neg_left (spec : Format) (a b : UnpackedFloat) :
    UnpackedFloat.div spec a.neg b = (UnpackedFloat.div spec a b).neg := by
  cases a <;> cases b <;>
    simp only [UnpackedFloat.div, UnpackedFloat.neg, sign_neg_div, roundWithAccuracy_neg]

theorem div_neg_right (spec : Format) (a b : UnpackedFloat) :
    UnpackedFloat.div spec a b.neg = (UnpackedFloat.div spec a b).neg := by
  cases a <;> cases b <;>
    simp only [UnpackedFloat.div, UnpackedFloat.neg, sign_div_neg, roundWithAccuracy_neg]

theorem neg_div_float (x y : Float) : -x / y = -(x / y) :=
  eq_of_unpack_eq (by rw [unpack_div, unpack_neg, unpack_neg, unpack_div, div_neg_left,
    unpack_pack_neg])

theorem div_neg_float (x y : Float) : x / -y = -(x / y) :=
  eq_of_unpack_eq (by rw [unpack_div, unpack_neg, unpack_neg, unpack_div, div_neg_right,
    unpack_pack_neg])

end Sign

end CrystalLattice.Binary64
