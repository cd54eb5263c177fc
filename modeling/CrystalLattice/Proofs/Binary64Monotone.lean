import Mathlib
import CrystalLattice.Proofs.Binary64Rounding

/-!
# Monotone binary64 operations

On finite floats the IEEE order is that of values (`value_le_of_le`). Multiplication, addition
and subtraction are monotone in the senses the reduction needs, also where a product overflows
(`mul_le_mul_of_isPositive`, `sub_le_sub_right_of_isPositive`).
-/

namespace CrystalLattice.Binary64

open Float.Model Float.Model.UnpackedFloat

section Values

variable {x y : Float}

/-- Canonical floats in lexicographic order of exponent and mantissa are in order of value. -/
theorem canonical_value_le {m n : ℕ} {e f : ℤ} (hm0 : 0 < m) (hn0 : 0 < n)
    (hm : (m.log2 = 52 ∧ -1074 ≤ e ∧ e ≤ 971) ∨ (m < 2 ^ 52 ∧ e = -1074))
    (hn : (n.log2 = 52 ∧ -1074 ≤ f ∧ f ≤ 971) ∨ (n < 2 ^ 52 ∧ f = -1074))
    (h : e < f ∨ e = f ∧ m ≤ n) : (m : ℚ) * 2 ^ e ≤ n * 2 ^ f := by
  rcases h with hlt | ⟨rfl, hle⟩
  · -- at a higher exponent the mantissa is normal, above every mantissa at a lower one
    have hm53 : m < 2 ^ 53 := by
      rcases hm with ⟨hl, -⟩ | ⟨hl, -⟩
      · exact (mantissa_bounds_of_log2 hm0 hl).2
      · omega
    have hn52 : 2 ^ 52 ≤ n := by
      rcases hn with ⟨hl, -⟩ | ⟨-, rfl⟩
      · exact (mantissa_bounds_of_log2 hn0 hl).1
      · omega
    have hm53' : (m : ℚ) ≤ 2 ^ 53 := by exact_mod_cast hm53.le
    have hn52' : (2 : ℚ) ^ 52 ≤ n := by exact_mod_cast hn52
    calc (m : ℚ) * 2 ^ e ≤ 2 ^ 53 * 2 ^ e := by gcongr
      _ = 2 ^ 52 * 2 ^ (e + 1) := by rw [zpow_add_one₀ (by norm_num)]; ring
      _ ≤ n * 2 ^ f := by
        gcongr
        · norm_num
        · omega
  · gcongr

theorem value_le_of_sortKey_le (hx : x.isFinite = true) (hy : y.isFinite = true)
    (h : sortKey x.toModel.unpack ≤ sortKey y.toModel.unpack) : value x ≤ value y := by
  change x.toModel.unpack.isFinite = true at hx
  change y.toModel.unpack.isFinite = true at hy
  unfold value
  generalize hu : x.toModel.unpack = u at hx h ⊢
  generalize hw : y.toModel.unpack = w at hy h ⊢
  cases u with
  | infinity s => simp [UnpackedFloat.isFinite] at hx
  | notANumber => simp [UnpackedFloat.isFinite] at hx
  | zero s =>
    cases w with
    | infinity t => simp [UnpackedFloat.isFinite] at hy
    | notANumber => simp [UnpackedFloat.isFinite] at hy
    | zero t => simp
    | finite t n f hn =>
      cases t
      · simp [sortKey, Prod.Lex.toLex_le_toLex] at h
      · simp only [Sign.apply, Int.cast_natCast]
        positivity
  | finite s m e hm =>
    cases w with
    | infinity t => simp [UnpackedFloat.isFinite] at hy
    | notANumber => simp [UnpackedFloat.isFinite] at hy
    | zero t =>
      cases s
      · simp only [Sign.apply, Int.cast_neg, Int.cast_natCast, neg_mul, Left.neg_nonpos_iff]
        positivity
      · simp [sortKey, Prod.Lex.toLex_le_toLex] at h
    | finite t n f hn =>
      have hmn := unpack_finite_shape x.toModel hu
      have hnn := unpack_finite_shape y.toModel hw
      cases s <;> cases t
      · -- two negative floats: the keys order the magnitudes the other way
        simp only [sortKey, Prod.Lex.toLex_le_toLex, lt_self_iff_false, true_and, false_or,
          neg_lt_neg_iff, neg_inj, neg_le_neg_iff, Nat.cast_le] at h
        have := canonical_value_le hn hm hnn hmn (h.imp id fun h => ⟨h.1.symm, h.2⟩)
        simp only [Sign.apply, Int.cast_neg, Int.cast_natCast, neg_mul, neg_le_neg_iff]
        exact this
      · simp only [Sign.apply, Int.cast_neg, Int.cast_natCast, neg_mul]
        have : (0 : ℚ) ≤ m * 2 ^ e := by positivity
        have : (0 : ℚ) ≤ n * 2 ^ f := by positivity
        linarith
      · simp [sortKey, Prod.Lex.toLex_le_toLex] at h
      · simp only [sortKey, Prod.Lex.toLex_le_toLex, lt_self_iff_false, true_and, false_or,
          Nat.cast_le] at h
        simp only [Sign.apply, Int.cast_natCast]
        exact canonical_value_le hm hn hmn hnn h

/-- On finite floats the order of floats is that of values. -/
theorem value_le_of_le (hx : x.isFinite = true) (hy : y.isFinite = true) (hle : x ≤ y) :
    value x ≤ value y := by
  obtain ⟨hx', hy'⟩ := ne_notANumber_of_le hle
  exact value_le_of_sortKey_le hx hy ((le_iff_sortKey_le hx' hy').mp hle)

theorem isNaN_eq_false_of_isFinite (h : x.isFinite = true) : x.isNaN = false := by
  change x.toModel.unpack.isFinite = true at h
  change x.toModel.unpack.isNaN = false
  generalize x.toModel.unpack = u at h ⊢
  cases u <;> simp_all [UnpackedFloat.isFinite, UnpackedFloat.isNaN]

theorem value_nonneg_of_zero_le (h : (0 : Float) ≤ x) (hx : x.isFinite = true) : 0 ≤ value x := by
  have h0 := value_le_of_le (by decide) hx h
  rwa [show value 0 = 0 by simp [value, unpack_zero]] at h0

theorem value_nonneg_of_hasSign (h : HasSign .positive x.toModel.unpack) : 0 ≤ value x := by
  unfold value
  generalize x.toModel.unpack = u at h ⊢
  rcases u with (_ | _) | _ | (_ | _) | ⟨_ | _, m, e, hm⟩ <;> simp_all [HasSign, Sign.apply]
  positivity

end Values

section Positive

/-- A float above zero: a positive finite float or positive infinity. -/
def IsPositive : UnpackedFloat → Prop
  | .finite .positive .. => True
  | .infinity .positive => True
  | _ => False

variable {x y z : Float}

theorem sortKey_ge_of_hasSign {u : UnpackedFloat} (h : HasSign .positive u) :
    toLex (2, toLex (0, 0)) ≤ sortKey u := by
  rcases u with (_ | _) | _ | (_ | _) | ⟨_ | _, m, e, hm⟩ <;>
    simp_all [HasSign, sortKey, Prod.Lex.toLex_le_toLex]

theorem sortKey_le_of_ne_notANumber {u : UnpackedFloat} (h : u ≠ .notANumber) :
    sortKey u ≤ toLex (4, toLex (0, 0)) := by
  rcases u with (_ | _) | _ | (_ | _) | ⟨_ | _, m, e, hm⟩ <;>
    simp_all [sortKey, Prod.Lex.toLex_le_toLex]

theorem isPositive_iff_sortKey {u : UnpackedFloat} :
    IsPositive u ↔ toLex (2, toLex (0, 0)) < sortKey u ∧ u ≠ .notANumber := by
  rcases u with (_ | _) | _ | (_ | _) | ⟨_ | _, m, e, hm⟩ <;>
    simp [IsPositive, sortKey, Prod.Lex.toLex_lt_toLex]

theorem isFinite_of_sortKey_le {u w : UnpackedFloat} (hu : toLex (2, toLex (0, 0)) ≤ sortKey u)
    (h : sortKey u ≤ sortKey w) (hw : w.isFinite = true) : u.isFinite = true := by
  rcases u with (_ | _) | _ | (_ | _) | ⟨_ | _, m, e, hm⟩ <;>
    rcases w with (_ | _) | _ | (_ | _) | ⟨_ | _, n, f, hn⟩ <;>
    simp_all [sortKey, Prod.Lex.toLex_le_toLex, UnpackedFloat.isFinite]

theorem IsPositive.sign_eq {u : UnpackedFloat} {s : Sign} (h : IsPositive u) (hs : HasSign s u) :
    s = .positive := by
  rcases u with (_ | _) | _ | (_ | _) | ⟨_ | _, m, e, hm⟩ <;> simp_all [IsPositive, HasSign]

theorem IsPositive.isFinite_or_eq {u : UnpackedFloat} (h : IsPositive u) :
    u.isFinite = true ∨ u = .infinity .positive := by
  rcases u with (_ | _) | _ | (_ | _) | ⟨_ | _, m, e, hm⟩ <;>
    simp_all [IsPositive, UnpackedFloat.isFinite]

theorem IsPositive.value_pos (hfin : x.isFinite = true) (h : IsPositive x.toModel.unpack) :
    0 < value x := by
  change x.toModel.unpack.isFinite = true at hfin
  unfold value
  generalize x.toModel.unpack = u at hfin h ⊢
  rcases u with (_ | _) | _ | (_ | _) | ⟨_ | _, m, e, hm⟩ <;>
    simp_all [IsPositive, UnpackedFloat.isFinite, Sign.apply]
  positivity

theorem IsPositive.of_le (h : IsPositive x.toModel.unpack) (hle : x ≤ y) :
    IsPositive y.toModel.unpack := by
  obtain ⟨hx, hy⟩ := ne_notANumber_of_le hle
  rw [le_iff_sortKey_le hx hy] at hle
  rw [isPositive_iff_sortKey] at h ⊢
  exact ⟨h.1.trans_le hle, hy⟩

theorem isPositive_of_lt (hz : HasPositiveSign z) (h : z < x) : IsPositive x.toModel.unpack := by
  obtain ⟨hz', hx⟩ := ne_notANumber_of_lt (lt_iff_unpack_lt.mp h)
  rw [lt_iff_sortKey_lt hz' hx] at h
  exact isPositive_iff_sortKey.mpr ⟨(sortKey_ge_of_hasSign hz).trans_lt h, hx⟩

theorem float_lt_of_lt_of_le (h₁ : x < y) (h₂ : y ≤ z) : x < z := by
  obtain ⟨hx, hy⟩ := ne_notANumber_of_lt (lt_iff_unpack_lt.mp h₁)
  obtain ⟨-, hz⟩ := ne_notANumber_of_le h₂
  rw [lt_iff_sortKey_lt hx hy] at h₁
  rw [le_iff_sortKey_le hy hz] at h₂
  exact (lt_iff_sortKey_lt hx hz).mpr (h₁.trans_le h₂)

theorem float_lt_of_le_of_lt (h₁ : x ≤ y) (h₂ : y < z) : x < z := by
  obtain ⟨hx, hy⟩ := ne_notANumber_of_le h₁
  obtain ⟨-, hz⟩ := ne_notANumber_of_lt (lt_iff_unpack_lt.mp h₂)
  rw [le_iff_sortKey_le hx hy] at h₁
  rw [lt_iff_sortKey_lt hy hz] at h₂
  exact (lt_iff_sortKey_lt hx hz).mpr (h₁.trans_lt h₂)

theorem float_le_refl (h : x.toModel.unpack ≠ .notANumber) : x ≤ x :=
  (le_iff_sortKey_le h h).mpr le_rfl

theorem float_le_trans (h₁ : x ≤ y) (h₂ : y ≤ z) : x ≤ z := by
  obtain ⟨hx, hy⟩ := ne_notANumber_of_le h₁
  obtain ⟨-, hz⟩ := ne_notANumber_of_le h₂
  rw [le_iff_sortKey_le hx hy] at h₁
  rw [le_iff_sortKey_le hy hz] at h₂
  exact (le_iff_sortKey_le hx hz).mpr (h₁.trans h₂)

theorem float_not_lt_of_le (h : x ≤ y) : ¬y < x := by
  obtain ⟨hx, hy⟩ := ne_notANumber_of_le h
  rw [le_iff_sortKey_le hx hy] at h
  rw [lt_iff_sortKey_lt hy hx]
  exact not_lt.mpr h

theorem IsPositive.zero_le (h : IsPositive x.toModel.unpack) : (0 : Float) ≤ x := by
  have hx := isPositive_iff_sortKey.mp h
  rw [le_iff_sortKey_le (by rw [unpack_zero]; simp) hx.2, unpack_zero]
  exact hx.1.le

theorem isFinite_of_le (h₀ : (0 : Float) ≤ x) (hle : x ≤ y) (hy : y.isFinite = true) :
    x.isFinite = true := by
  obtain ⟨hx, hy'⟩ := ne_notANumber_of_le hle
  rw [le_iff_sortKey_le (by rw [unpack_zero]; simp) hx, unpack_zero] at h₀
  rw [le_iff_sortKey_le hx hy'] at hle
  exact isFinite_of_sortKey_le h₀ hle hy

end Positive

section Operations

variable {x y x' y' c q : Float}

theorem add_le_add_left_of_nonneg (hc : c.isFinite = true) (hc0 : 0 ≤ value c)
    (hx : x.isFinite = true) (hx0 : 0 ≤ value x) (hy : y.isFinite = true) (hle : x ≤ y) :
    c + x ≤ c + y := by
  have hxy := value_le_of_le hx hy hle
  exact (RoundsFrom.add hc hx hc0 hx0).le (RoundsFrom.add hc hy hc0 (hx0.trans hxy))
    (by linarith)

/-- Subtracting from a float is antitone in what is subtracted, while the difference is not
below zero. -/
theorem sub_le_sub_left_of_nonneg (hc : c.isFinite = true) (hx : x.isFinite = true)
    (hx0 : 0 ≤ value x) (hy : y.isFinite = true) (hle : x ≤ y) (hyc : y ≤ c) :
    c - y ≤ c - x := by
  have hxy := value_le_of_le hx hy hle
  have hyc' := value_le_of_le hy hc hyc
  exact (RoundsFrom.sub hc hy (hx0.trans hxy) hyc').le (RoundsFrom.sub hc hx hx0 (hxy.trans hyc'))
    (by linarith)

theorem IsPositive.of_unpack_pack {u : UnpackedFloat}
    (h : IsPositive (UnpackedFloat.unpack .binary64 (UnpackedFloat.pack .binary64 u))) :
    IsPositive u := by
  have hneg (hu : HasSign .negative u) : False := nomatch h.sign_eq hu.unpack_pack
  cases u with
  | zero s =>
    change IsPositive (Float.Model.pack (.zero s)).unpack at h
    rw [unpack_pack_zero] at h
    exact h
  | notANumber => exact (hneg trivial).elim
  | infinity s =>
    cases s
    · exact (hneg rfl).elim
    · trivial
  | finite s m e hm =>
    cases s
    · exact (hneg rfl).elim
    · trivial

/-- A product above zero, with a factor not below zero, has both factors above zero. -/
theorem IsPositive.of_mul {a b : UnpackedFloat} (hb : toLex (2, toLex (0, 0)) ≤ sortKey b)
    (h : IsPositive (mul .binary64 a b)) : IsPositive a ∧ IsPositive b := by
  have hb' : HasSign .positive b ∨ b = .zero .negative := by
    rcases b with (_ | _) | _ | (_ | _) | ⟨_ | _, n, f, hn⟩ <;>
      simp_all [sortKey, Prod.Lex.toLex_le_toLex, HasSign]
  rcases hb' with hb' | rfl
  · rcases a with s | _ | s | ⟨s, m, e, hm⟩ <;> rcases b with t | _ | t | ⟨t, n, f, hn⟩ <;>
      simp only [HasSign] at hb' <;> (try subst hb') <;> simp only [UnpackedFloat.mul] at h
    case finite.finite =>
      have hs := h.sign_eq (hasSign_roundWithAccuracy ..)
      rw [sign_mul_positive] at hs
      subst hs
      exact ⟨trivial, trivial⟩
    all_goals (try cases s) <;> simp_all [IsPositive]
  · rcases a with s | _ | s | ⟨s, m, e, hm⟩ <;> simp only [UnpackedFloat.mul] at h <;>
      exact False.elim h

theorem IsPositive.of_float_mul (hy : toLex (2, toLex (0, 0)) ≤ sortKey y.toModel.unpack)
    (h : IsPositive (x * y).toModel.unpack) :
    IsPositive x.toModel.unpack ∧ IsPositive y.toModel.unpack := by
  rw [unpack_mul] at h
  exact IsPositive.of_mul hy (IsPositive.of_unpack_pack h)

theorem unpack_mul_infinity_left (hx : x.toModel.unpack = .infinity .positive)
    (hy : IsPositive y.toModel.unpack) : (x * y).toModel.unpack = .infinity .positive := by
  rw [unpack_mul, hx]
  rcases hu : y.toModel.unpack with (_ | _) | _ | (_ | _) | ⟨_ | _, m, e, hm⟩ <;>
    rw [hu] at hy <;> simp only [IsPositive] at hy
  all_goals exact unpack_pack_infinity _

theorem unpack_mul_infinity_right (hx : IsPositive x.toModel.unpack)
    (hy : y.toModel.unpack = .infinity .positive) :
    (x * y).toModel.unpack = .infinity .positive := by
  rw [unpack_mul, hy]
  rcases hu : x.toModel.unpack with (_ | _) | _ | (_ | _) | ⟨_ | _, m, e, hm⟩ <;>
    rw [hu] at hx <;> simp only [IsPositive] at hx
  all_goals exact unpack_pack_infinity _

theorem IsPositive.mul_ne_notANumber (hx : IsPositive x.toModel.unpack)
    (hy : IsPositive y.toModel.unpack) : (x * y).toModel.unpack ≠ .notANumber := by
  rw [unpack_mul]
  apply unpack_pack_ne_notANumber
  generalize x.toModel.unpack = a at hx ⊢
  generalize y.toModel.unpack = b at hy ⊢
  rcases a with (_ | _) | _ | (_ | _) | ⟨_ | _, m, e, hm⟩ <;>
    simp only [IsPositive] at hx <;>
    rcases b with (_ | _) | _ | (_ | _) | ⟨_ | _, n, f, hn⟩ <;>
    simp only [IsPositive] at hy <;> simp only [UnpackedFloat.mul]
  all_goals first
    | exact roundWithAccuracy_ne_notANumber _ _ _ _
    | simp

theorem le_of_eq_infinity (hx : x.toModel.unpack ≠ .notANumber)
    (hy : y.toModel.unpack = .infinity .positive) : x ≤ y := by
  rw [le_iff_sortKey_le hx (by rw [hy]; simp), hy]
  exact sortKey_le_of_ne_notANumber hx

/-- Multiplication is monotone on floats above zero. -/
theorem mul_le_mul_of_isPositive (hx' : IsPositive x'.toModel.unpack)
    (hy' : IsPositive y'.toModel.unpack) (hx : x' ≤ x) (hy : y' ≤ y) : x' * y' ≤ x * y := by
  have hxp := hx'.of_le hx
  have hyp := hy'.of_le hy
  have hprod := hx'.mul_ne_notANumber hy'
  rcases hxp.isFinite_or_eq with hxf | hxinf
  · rcases hyp.isFinite_or_eq with hyf | hyinf
    · -- finite factors: the exact products are in order, and rounding keeps the order
      have hx'f := isFinite_of_le hx'.zero_le hx hxf
      have hy'f := isFinite_of_le hy'.zero_le hy hyf
      have hvx := value_le_of_le hx'f hxf hx
      have hvy := value_le_of_le hy'f hyf hy
      have hx'0 := (hx'.value_pos hx'f).le
      have hy'0 := (hy'.value_pos hy'f).le
      exact (RoundsFrom.mul hx'f hy'f hx'0 hy'0).le
        (RoundsFrom.mul hxf hyf (hx'0.trans hvx) (hy'0.trans hvy))
        (mul_le_mul hvx hvy hy'0 (hx'0.trans hvx))
    · exact le_of_eq_infinity hprod (unpack_mul_infinity_right hxp hyinf)
  · exact le_of_eq_infinity hprod (unpack_mul_infinity_left hxinf hyp)

theorem pos_of_isPositive_normalize {M e : ℤ} {z : Sign}
    (h : IsPositive (UnpackedFloat.normalize .binary64 M e z)) : 0 < M := by
  unfold UnpackedFloat.normalize at h
  rcases lt_trichotomy M 0 with hlt | rfl | hgt
  · rw [compare_lt_iff_lt.mpr hlt] at h
    unfold UnpackedFloat.round at h
    exact nomatch h.sign_eq (hasSign_roundWithAccuracy ..)
  · exact h.elim
  · exact hgt

/-- A difference above zero of a finite float and a float of positive sign: the subtrahend is
finite and of smaller value. -/
theorem lt_of_isPositive_sub (hx : x.isFinite = true) (hq : HasSign .positive q.toModel.unpack)
    (h : IsPositive (x - q).toModel.unpack) : q.isFinite = true ∧ value q < value x := by
  rw [unpack_sub] at h
  have h' := IsPositive.of_unpack_pack h
  change x.toModel.unpack.isFinite = true at hx
  change q.toModel.unpack.isFinite = true ∧ _
  unfold value
  generalize x.toModel.unpack = a at hx h' ⊢
  generalize q.toModel.unpack = b at hq h' ⊢
  rcases a with s | _ | s | ⟨s, m, e, hm⟩ <;> simp [UnpackedFloat.isFinite] at hx <;>
    rcases b with t | _ | t | ⟨t, n, f, hn⟩ <;> simp only [HasSign] at hq <;> (try subst hq)
  case finite.finite =>
    obtain ⟨M, hsub, hM⟩ := sub_finite s .positive hm hn
    rw [hsub] at h'
    have hM0 : (0 : ℚ) < M := by exact_mod_cast pos_of_isPositive_normalize h'
    refine ⟨rfl, ?_⟩
    have : (0 : ℚ) < M * 2 ^ min e f := by positivity
    dsimp only
    linarith
  case finite.zero =>
    cases s
    · exact False.elim h'
    · refine ⟨rfl, ?_⟩
      simp only [Sign.apply, Int.cast_natCast]
      positivity
  all_goals simp only [UnpackedFloat.sub] at h'
  all_goals first
    | exact False.elim h'
    | (split_ifs at h' <;> exact False.elim h')

/-- Subtracting a float of positive sign is monotone in the minuend, while the difference is
above zero. -/
theorem sub_le_sub_right_of_isPositive (hx' : x'.isFinite = true) (hx : x.isFinite = true)
    (hq : HasSign .positive q.toModel.unpack) (hle : x' ≤ x)
    (hpos : IsPositive (x' - q).toModel.unpack) : x' - q ≤ x - q := by
  obtain ⟨hqf, hlt⟩ := lt_of_isPositive_sub hx' hq hpos
  have hq0 := value_nonneg_of_hasSign hq
  have hvx := value_le_of_le hx' hx hle
  exact (RoundsFrom.sub hx' hqf hq0 hlt.le).le (RoundsFrom.sub hx hqf hq0 (hlt.le.trans hvx))
    (by linarith)

end Operations

end CrystalLattice.Binary64
