import Mathlib
import CrystalLattice.Proofs.Binary64Sign

/-!
# The order of binary64 floats and NaN

On floats that are not NaN the IEEE comparison is total (`le_of_not_lt`) and is the order of a
key (`sortKey`), so a loop testing `x ≤ y` and a check testing `y < x` agree there. Multiplying a
float of positive sign by one in `[1/2, 1)` does not raise it (`not_lt_mul_of_not_lt`).
-/

namespace CrystalLattice.Binary64

open Float.Model Float.Model.UnpackedFloat

section Order

theorem compare_swap (a b : UnpackedFloat) : b.compare a = (a.compare b).map Ordering.swap := by
  rcases a with s | _ | s | ⟨s, m, e, hm⟩ <;> rcases b with t | _ | t | ⟨t, n, f, hn⟩ <;>
    (try cases s) <;> (try cases t) <;> try rfl
  all_goals simp only [UnpackedFloat.compare, Option.map_some, Ordering.swap_then,
    Std.OrientedOrd.eq_swap (a := f), Std.OrientedOrd.eq_swap (a := n), Ordering.swap_swap]

theorem compare_isSome {a b : UnpackedFloat} (ha : a ≠ .notANumber) (hb : b ≠ .notANumber) :
    ∃ o, a.compare b = some o := by
  rcases a with s | _ | s | ⟨s, m, e, hm⟩ <;> rcases b with t | _ | t | ⟨t, n, f, hn⟩ <;>
    (try cases s) <;> (try cases t) <;> simp_all [UnpackedFloat.compare]

theorem le_iff_unpack_le {x y : Float} : x ≤ y ↔ x.toModel.unpack.le y.toModel.unpack = true := by
  change decide (x.toModel.unpack.le y.toModel.unpack = true) = true ↔ _
  exact decide_eq_true_iff

/-- On numbers the order is total: a float that is not below another is above or equal. -/
theorem le_of_not_lt {x y : Float} (hx : x.toModel.unpack ≠ .notANumber)
    (hy : y.toModel.unpack ≠ .notANumber) (h : ¬x < y) : y ≤ x := by
  rw [lt_iff_unpack_lt] at h
  rw [le_iff_unpack_le]
  obtain ⟨o, ho⟩ := compare_isSome hx hy
  simp only [UnpackedFloat.lt, ho] at h
  rw [UnpackedFloat.le, compare_swap, ho]
  cases o <;> simp_all

theorem hasSign_of_ne_notANumber {u : UnpackedFloat} (hu : u ≠ .notANumber) :
    HasSign .positive u ∨ HasSign .negative u := by
  rcases u with s | _ | s | ⟨s, m, e, hm⟩
  all_goals first
    | exact absurd rfl hu
    | cases s
  all_goals first
    | exact .inl rfl
    | exact .inr rfl

/-- A float of positive sign is below no float of negative sign: their comparison is `gt`, or
`eq` between the two zeros. -/
theorem not_lt_of_hasSign_negative {x y : Float} (hx : HasPositiveSign x)
    (hy : HasSign .negative y.toModel.unpack) : ¬x < y := by
  rw [lt_iff_unpack_lt]
  unfold HasPositiveSign at hx
  generalize x.toModel.unpack = a at hx ⊢
  generalize y.toModel.unpack = b at hy ⊢
  rcases a with s | _ | s | ⟨s, m, e, hm⟩ <;> rcases b with t | _ | t | ⟨t, n, f, hn⟩ <;>
    simp only [HasSign] at hx hy <;> (try subst hx) <;> (try subst hy) <;>
    simp [UnpackedFloat.lt, UnpackedFloat.compare]

end Order

section Numbers

theorem unpack_pack_ne_notANumber {u : UnpackedFloat} (hu : u ≠ .notANumber) :
    UnpackedFloat.unpack .binary64 (UnpackedFloat.pack .binary64 u) ≠ .notANumber := by
  cases u with
  | notANumber => exact absurd rfl hu
  | infinity s => simp [UnpackedFloat.pack, packedInfinity, UnpackedFloat.unpack]
  | zero s => simp [UnpackedFloat.pack]
  | finite s m e hm =>
    simp only [UnpackedFloat.pack]
    split_ifs with hover hnormal
    · simp [packedInfinity, UnpackedFloat.unpack]
    · -- a normal word: its exponent field is not all ones
      have hbias : Format.binary64.exponentBias = 1023 := rfl
      have hne : BitVec.ofNat 11 (e + ↑Format.binary64.exponentBias + ↑52).toNat ≠ -1#11 := by
        intro h
        have := congrArg BitVec.toNat h
        simp [hbias] at this hover
        omega
      simp only [UnpackedFloat.unpack, unpackExponent_packComponents,
        unpackMantissa_packComponents]
      split_ifs <;> simp_all
    · simp only [UnpackedFloat.unpack, unpackExponent_packComponents,
        unpackMantissa_packComponents]
      split_ifs <;> simp_all

theorem roundWithAccuracy_ne_notANumber (s : Sign) (m : ℕ) (e : ℤ) (acc : Accuracy) :
    roundWithAccuracy .binary64 s m e acc ≠ .notANumber := by
  unfold roundWithAccuracy
  dsimp only
  split_ifs <;> simp

theorem normalize_ne_notANumber (M e : ℤ) (z : Sign) :
    UnpackedFloat.normalize .binary64 M e z ≠ .notANumber := by
  unfold UnpackedFloat.normalize UnpackedFloat.round
  split
  · exact roundWithAccuracy_ne_notANumber _ _ _ _
  · simp
  · exact roundWithAccuracy_ne_notANumber _ _ _ _

theorem unpack_sub_ne_notANumber {x y : Float} (hx : x.isFinite = true)
    (hy : y.toModel.unpack ≠ .notANumber) : (x - y).toModel.unpack ≠ .notANumber := by
  rw [unpack_sub]
  apply unpack_pack_ne_notANumber
  change x.toModel.unpack.isFinite = true at hx
  rcases hu : x.toModel.unpack with s | _ | s | ⟨s, m, e, hm⟩ <;> rw [hu] at hx <;>
    simp [UnpackedFloat.isFinite] at hx <;>
    rcases hv : y.toModel.unpack with t | _ | t | ⟨t, n, f, hn⟩ <;> rw [hv] at hy <;>
    simp at hy <;> simp only [UnpackedFloat.sub]
  all_goals first
    | exact normalize_ne_notANumber _ _ _
    | (split_ifs <;> simp)
    | simp

/-- A number times a finite float is a number, unless it is an infinity times a zero. -/
theorem unpack_mul_ne_notANumber {x y : Float} (hx : x.toModel.unpack ≠ .notANumber)
    (hy : y.isFinite = true) (hzero : x.isInf = true → (y == 0) = false) :
    (x * y).toModel.unpack ≠ .notANumber := by
  rw [unpack_mul]
  apply unpack_pack_ne_notANumber
  change y.toModel.unpack.isFinite = true at hy
  change x.toModel.unpack.isInf = true → _ at hzero
  rcases hu : x.toModel.unpack with s | _ | s | ⟨s, m, e, hm⟩ <;> rw [hu] at hx hzero <;>
    simp at hx <;>
    rcases hv : y.toModel.unpack with t | _ | t | ⟨t, n, f, hn⟩ <;> rw [hv] at hy <;>
    simp [UnpackedFloat.isFinite] at hy <;> simp only [UnpackedFloat.mul]
  all_goals first
    | exact roundWithAccuracy_ne_notANumber _ _ _ _
    | simp
  have := (beq_zero_iff y).mpr ⟨t, hv⟩
  simp [UnpackedFloat.isInf, this] at hzero

theorem unpack_abs (x : Float) : (Float.abs x).toModel.unpack =
    UnpackedFloat.unpack .binary64 (UnpackedFloat.pack .binary64 x.toModel.unpack.abs) := rfl

theorem hasPositiveSign_abs (x : Float) : HasPositiveSign (Float.abs x) := by
  unfold HasPositiveSign
  rw [unpack_abs]
  apply HasSign.unpack_pack
  cases x.toModel.unpack <;> trivial

theorem unpack_abs_ne_notANumber {x : Float} (hx : x.toModel.unpack ≠ .notANumber) :
    (Float.abs x).toModel.unpack ≠ .notANumber := by
  rw [unpack_abs]
  apply unpack_pack_ne_notANumber
  cases hu : x.toModel.unpack <;> rw [hu] at hx <;> simp_all [UnpackedFloat.abs]

end Numbers

section Products

theorem sign_mul_positive (s : Sign) : s * .positive = s := by cases s <;> rfl

theorem HasSign.mul {spec : Format} {s t : Sign} {a b : UnpackedFloat} (ha : HasSign s a)
    (hb : HasSign t b) : HasSign (s * t) (UnpackedFloat.mul spec a b) := by
  rcases a with s' | _ | s' | ⟨s', m, e, hm⟩ <;> rcases b with t' | _ | t' | ⟨t', n, f, hn⟩ <;>
    simp only [HasSign] at ha hb <;> (try subst ha) <;> (try subst hb) <;>
    simp only [UnpackedFloat.mul]
  all_goals first
    | exact hasSign_roundWithAccuracy ..
    | trivial

/-- A float in canonical shape, given with a mantissa shifted left by `j` places and the
exponent lowered to match, rounds back to itself. -/
theorem roundWithAccuracy_canonical (s : Sign) {m : ℕ} {e : ℤ} (hm : 0 < m)
    (hshape : (m.log2 = 52 ∧ -1074 ≤ e) ∨ (m < 2 ^ 52 ∧ e = -1074)) (j : ℕ) :
    roundWithAccuracy .binary64 s (m * 2 ^ j) (e - j) .exact = .finite s m e hm := by
  have hm53 : m.log2 ≤ 52 ∧ m < 2 ^ 53 := by
    rcases hshape with ⟨hl, -⟩ | ⟨hl, -⟩
    · exact ⟨hl.le, (mantissa_bounds_of_log2 hm hl).2⟩
    · exact ⟨log2_le_of_lt (by omega), by omega⟩
  have htarget : Format.binary64.targetExponent (totalExponent (m * 2 ^ j) (e - j)) = e := by
    rw [targetExponent_binary64, totalExponent, ← Nat.shiftLeft_eq, log2_shiftLeft hm.ne']
    push_cast
    omega
  -- the first shift takes off exactly the `j` appended zeros, and `m` has no carry
  have hfirst : shiftToTargetExponent .binary64 (m * 2 ^ j) (e - j) .exact =
      (⟨m, false, false⟩, e) := by
    unfold shiftToTargetExponent shiftToExponent
    dsimp only
    rw [htarget, show (e - (e - j)).toNat = j by omega]
    simp only [ExtendedMantissa.ofMantissaAndAccuracy, shiftRight_of_dvd _ _ (dvd_mul_left _ _),
      Nat.mul_div_cancel _ (by positivity : 0 < 2 ^ j)]
    simp
  rw [roundWithAccuracy_binary64 s hfirst, roundedMantissa_exact, dif_neg hm.ne', if_pos hm53.2]

theorem unpack_one : (1 : Float).toModel.unpack = .finite .positive (2 ^ 52) (-52) (by positivity) := by
  rw [show (1 : Float) = Float.ofNat 1 from rfl, unpack_ofNat (by norm_num)]
  rfl

theorem mul_unpack_one (x : Float) :
    mul .binary64 x.toModel.unpack (1 : Float).toModel.unpack = x.toModel.unpack := by
  rw [unpack_one]
  cases hx : x.toModel.unpack with
  | notANumber => rfl
  | infinity s => simp [UnpackedFloat.mul, sign_mul_positive]
  | zero s => simp [UnpackedFloat.mul, sign_mul_positive]
  | finite s m e hm =>
    simp only [UnpackedFloat.mul, sign_mul_positive]
    have hshape := unpack_finite_shape x.toModel hx
    have := roundWithAccuracy_canonical s hm (by
      rcases hshape with ⟨hl, he, -⟩ | ⟨hl, he⟩
      · exact .inl ⟨hl, he⟩
      · exact .inr ⟨hl, he⟩) 52
    rw [← this]
    congr 1

theorem unpack_mul_one (x : Float) : (x * 1).toModel.unpack = x.toModel.unpack := by
  rw [unpack_mul, mul_unpack_one]
  change UnpackedFloat.unpack .binary64
    (UnpackedFloat.pack .binary64 (UnpackedFloat.unpack .binary64 x.toModel.toBits.toBitVec)) = _
  rw [pack_unpack_of_valid x.toModel.valid]
  rfl

theorem mul_one_eq (x : Float) : x * 1 = x := eq_of_unpack_eq (unpack_mul_one x)

/-- Rounding the product of `m · 2^e` with a mantissa in `[2^52, 2^53)` at exponent `e - 53` gives
zero or a float not above `m · 2^e`. -/
theorem roundWithAccuracy_mul_le (s : Sign) {m mc : ℕ} {e : ℤ} (hm : 0 < m)
    (hshape : (m.log2 = 52 ∧ -1074 ≤ e) ∨ (m < 2 ^ 52 ∧ e = -1074))
    (hmc₁ : 2 ^ 52 ≤ mc) (hmc₂ : mc < 2 ^ 53) :
    roundWithAccuracy .binary64 s (m * mc) (e + -53) .exact = .zero s ∨
      ∃ mf ef hmf, roundWithAccuracy .binary64 s (m * mc) (e + -53) .exact =
        .finite s mf ef hmf ∧ mf < 2 ^ 53 ∧ -1074 ≤ ef ∧ (ef < e ∨ ef = e ∧ mf ≤ m) := by
  have hmc : mc.log2 = 52 := (Nat.log2_eq_iff (by positivity)).mpr ⟨hmc₁, hmc₂⟩
  have hlog₁ := le_log2_mul hm.ne' (by positivity : mc ≠ 0)
  have hlog₂ := log2_mul_le hm.ne' (by positivity : mc ≠ 0)
  have hlm : m < 2 ^ 53 ∧ m.log2 ≤ 52 ∧ (e = -1074 ∨ 2 ^ 52 ≤ m) ∧ -1074 ≤ e := by
    rcases hshape with ⟨h52, he⟩ | ⟨hlt, rfl⟩
    · obtain ⟨h₁, h₂⟩ := mantissa_bounds_of_log2 hm h52
      exact ⟨h₂, h52.le, .inr h₁, he⟩
    · exact ⟨by omega, log2_le_of_lt (by omega), .inl rfl, le_rfl⟩
  set L := (m * mc).log2 with hL
  set te := max ((L : ℤ) + 1 + (e + -53) - 53) (-1074) with htedef
  have hte₁ : e + -53 ≤ te := by omega
  have hte₂ : te ≤ e := by omega
  set k := (te - (e + -53)).toNat with hk
  have hk' : (k : ℤ) = te - (e + -53) := Int.toNat_of_nonneg (by omega)
  have hfirst : shiftToTargetExponent .binary64 (m * mc) (e + -53) .exact =
      (ExtendedMantissa.mk (m * mc) false false >>> k, te) := by
    rw [shiftToTargetExponent_binary64]
    exact Prod.ext rfl (by dsimp only; omega)
  rw [roundWithAccuracy_binary64 s hfirst]
  set r := (ExtendedMantissa.mk (m * mc) false false >>> k).roundedMantissa with hr
  have hr₁ : r ≤ m * mc / 2 ^ k + 1 := by
    have := roundedMantissa_le (ExtendedMantissa.mk (m * mc) false false >>> k)
    rwa [mantissa_shiftRight] at this
  have hat : te = e → r ≤ m := fun hteq => by
    have hk53 : k = 53 := by omega
    have hcut : m * mc / 2 ^ 53 < m :=
      (Nat.div_lt_iff_lt_mul (by positivity)).mpr (Nat.mul_lt_mul_of_pos_left hmc₂ hm)
    rw [hk53] at hr₁
    omega
  split_ifs with h0 hlt
  · exact .inl rfl
  · -- no carry: `r` at `te`
    refine .inr ⟨r, te, Nat.pos_of_ne_zero h0, rfl, hlt, by omega, ?_⟩
    rcases eq_or_lt_of_le hte₂ with hteq | htlt
    · exact .inr ⟨hteq, hat hteq⟩
    · exact .inl htlt
  · -- a carry to `2 ^ 52` at `te + 1`, which only happens below `e`
    refine .inr ⟨2 ^ 52, te + 1, by positivity, rfl, by norm_num, by omega, ?_⟩
    have htlt : te < e := lt_of_le_of_ne hte₂ fun hteq => hlt (by have := hat hteq; omega)
    omega

/-- Packing a finite float of at most 53 bits inside the exponent range does not move it up: a
normal mantissa packs to itself, and a shorter one packs as a subnormal at the least exponent. -/
theorem orderKey_unpack_pack_le (s : Sign) {m : ℕ} {e : ℤ} (hm : 0 < m) (hm53 : m < 2 ^ 53)
    (he : -1074 ≤ e) (he' : e ≤ 971) :
    orderKey (Float.Model.pack (.finite s m e hm)).unpack ≤ orderKey (.finite s m e hm) := by
  by_cases hlog : m.log2 = 52
  · rw [unpack_pack_normal s hm hlog he he']
  · have hm52 : m < 2 ^ 52 := by
      have := log2_le_of_lt hm53
      exact (Nat.log2_lt hm.ne').mp (by omega)
    have hbias : Format.binary64.exponentBias = 1023 := rfl
    have hbits : Format.binary64.mantissaBits = 53 := rfl
    have hfit : (BitVec.ofNat 52 m).toNat = m := by
      rw [BitVec.toNat_ofNat]
      exact Nat.mod_eq_of_lt hm52
    have hne : BitVec.ofNat 52 m ≠ 0#52 := by
      intro h
      rw [h] at hfit
      simp at hfit
      omega
    unfold Float.Model.unpack Float.Model.pack
    simp only [UnpackedFloat.pack, hbias, hbits]
    rw [if_neg (by push_cast; omega), if_neg (by omega)]
    simp only [UnpackedFloat.unpack, unpackExponent_packComponents, unpackMantissa_packComponents,
      hne]
    simp [orderKey, Prod.Lex.toLex_le_toLex, hfit, hbias]
    omega

/-- Multiplying a float of positive sign by a float in `[1/2, 1)` gives a float of positive sign
that is not above it. -/
theorem HasPositiveSign.orderKey_mul_le {x c : Float} (hx : HasPositiveSign x) {mc : ℕ}
    {hmc : 0 < mc} (hc : c.toModel.unpack = .finite .positive mc (-53) hmc)
    (hmc₁ : 2 ^ 52 ≤ mc) (hmc₂ : mc < 2 ^ 53) :
    HasPositiveSign (x * c) ∧ orderKey (x * c).toModel.unpack ≤ orderKey x.toModel.unpack := by
  have hcs : HasSign .positive c.toModel.unpack := by rw [hc]; rfl
  refine ⟨(HasSign.mul hx hcs).unpack_pack, ?_⟩
  rw [unpack_mul, hc]
  unfold HasPositiveSign at hx
  cases hu : x.toModel.unpack with
  | notANumber => simp [UnpackedFloat.mul, UnpackedFloat.pack]
  | infinity t =>
    rw [hu] at hx
    subst hx
    simp [UnpackedFloat.mul, UnpackedFloat.pack, packedInfinity, UnpackedFloat.unpack, orderKey]
  | zero t =>
    rw [hu] at hx
    subst hx
    simp [UnpackedFloat.mul, UnpackedFloat.pack, orderKey]
  | finite t m e hm =>
    rw [hu] at hx
    subst hx
    have hshape := unpack_finite_shape x.toModel hu
    simp only [UnpackedFloat.mul]
    rcases roundWithAccuracy_mul_le (.positive * .positive) hm (by
        rcases hshape with ⟨hl, he, -⟩ | ⟨hl, he⟩
        · exact .inl ⟨hl, he⟩
        · exact .inr ⟨hl, he⟩) hmc₁ hmc₂ with hz | ⟨mf, ef, hmf, hr, hmf53, hef, hord⟩
    · rw [hz]
      simp [UnpackedFloat.pack, orderKey, Prod.Lex.toLex_le_toLex]
    · rw [hr]
      have he971 : e ≤ 971 := by rcases hshape with ⟨-, -, h⟩ | ⟨-, rfl⟩ <;> omega
      refine le_trans (orderKey_unpack_pack_le _ hmf hmf53 hef (by omega)) ?_
      simp only [orderKey, Prod.Lex.toLex_le_toLex]
      exact .inr ⟨trivial, hord⟩

/-- A float of positive sign that a number is not above stays not below it after the number is
multiplied by a float in `[1/2, 1)`: a number of positive sign moves down, one of negative sign
stays negative. -/
theorem not_lt_mul_of_not_lt {x y c : Float} (hy : HasPositiveSign y)
    (hx : x.toModel.unpack ≠ .notANumber) {mc : ℕ} {hmc : 0 < mc}
    (hc : c.toModel.unpack = .finite .positive mc (-53) hmc) (hmc₁ : 2 ^ 52 ≤ mc)
    (hmc₂ : mc < 2 ^ 53) (h : ¬y < x) : ¬y < x * c := by
  rcases hasSign_of_ne_notANumber hx with hpos | hneg
  · obtain ⟨hxc, hkey⟩ := HasPositiveSign.orderKey_mul_le hpos hc hmc₁ hmc₂
    intro hlt
    rw [lt_iff_unpack_lt] at hlt h
    obtain ⟨hy', hxc'⟩ := ne_notANumber_of_lt hlt
    rw [lt_iff_orderKey_lt hy hxc hy' hxc'] at hlt
    exact h ((lt_iff_orderKey_lt hy hpos hy' hx).mpr (lt_of_lt_of_le hlt hkey))
  · have hcs : HasSign .positive c.toModel.unpack := by rw [hc]; rfl
    have hxc : HasSign .negative (x * c).toModel.unpack := by
      rw [unpack_mul, ← sign_mul_positive .negative]
      exact (HasSign.mul hneg hcs).unpack_pack
    exact not_lt_of_hasSign_negative hy hxc

end Products

section Keys

/-- The place of a float in the IEEE order: the infinities at the ends, the finite floats of
each sign by exponent and mantissa, the larger ones first when negative, and both zeros
together in the middle. A NaN, which is unordered, is put last. -/
def sortKey : UnpackedFloat → ℕ ×ₗ (ℤ ×ₗ ℤ)
  | .infinity .negative => toLex (0, toLex (0, 0))
  | .finite .negative m e _ => toLex (1, toLex (-e, -(m : ℤ)))
  | .zero _ => toLex (2, toLex (0, 0))
  | .finite .positive m e _ => toLex (3, toLex (e, (m : ℤ)))
  | .infinity .positive => toLex (4, toLex (0, 0))
  | .notANumber => toLex (5, toLex (0, 0))

theorem isLE_then_compare (e f : ℤ) (m n : ℕ) :
    ((compare e f).then (compare m n)).isLE = true ↔ e < f ∨ e = f ∧ m ≤ n := by
  rcases lt_trichotomy e f with h | rfl | h
  · simp [compare_lt_iff_lt.mpr h, h]
  · simp [Nat.isLE_compare]
  · simp [compare_gt_iff_gt.mpr h, h.ne', h.le]

theorem isGE_then_compare (e f : ℤ) (m n : ℕ) :
    ((compare e f).then (compare m n)).isGE = true ↔ f < e ∨ e = f ∧ n ≤ m := by
  rcases lt_trichotomy e f with h | rfl | h
  · simp [compare_lt_iff_lt.mpr h, h.ne, h.le]
  · simp [Nat.isGE_compare]
  · simp [compare_gt_iff_gt.mpr h, h]

/-- On numbers, the IEEE comparison is that of the keys. -/
theorem le_iff_sortKey_le {x y : Float} (hx : x.toModel.unpack ≠ .notANumber)
    (hy : y.toModel.unpack ≠ .notANumber) :
    x ≤ y ↔ sortKey x.toModel.unpack ≤ sortKey y.toModel.unpack := by
  rw [le_iff_unpack_le]
  generalize x.toModel.unpack = a at hx ⊢
  generalize y.toModel.unpack = b at hy ⊢
  rcases a with s | _ | s | ⟨s, m, e, hm⟩ <;> rcases b with t | _ | t | ⟨t, n, f, hn⟩ <;>
    (try cases s) <;> (try cases t) <;>
    simp_all [UnpackedFloat.le, UnpackedFloat.compare, sortKey, Prod.Lex.toLex_le_toLex,
      isLE_then_compare, isGE_then_compare]
  all_goals rfl

theorem lt_iff_sortKey_lt {x y : Float} (hx : x.toModel.unpack ≠ .notANumber)
    (hy : y.toModel.unpack ≠ .notANumber) :
    x < y ↔ sortKey x.toModel.unpack < sortKey y.toModel.unpack := by
  rw [← not_le, ← le_iff_sortKey_le hy hx]
  constructor
  · intro h hyx
    rw [lt_iff_unpack_lt, UnpackedFloat.lt, beq_iff_eq] at h
    rw [le_iff_unpack_le, UnpackedFloat.le, compare_swap, h] at hyx
    simp at hyx
  · intro h
    by_contra hlt
    exact h (le_of_not_lt hx hy hlt)

theorem ne_notANumber_of_le {x y : Float} (h : x ≤ y) :
    x.toModel.unpack ≠ .notANumber ∧ y.toModel.unpack ≠ .notANumber := by
  rw [le_iff_unpack_le] at h
  generalize x.toModel.unpack = a at h ⊢
  generalize y.toModel.unpack = b at h ⊢
  cases a <;> cases b <;> simp_all [UnpackedFloat.le, UnpackedFloat.compare]

end Keys

end CrystalLattice.Binary64
