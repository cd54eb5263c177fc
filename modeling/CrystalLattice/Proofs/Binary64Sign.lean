import Mathlib
import CrystalLattice.Proofs.Binary64Integers

/-!
# Signs in binary64 arithmetic

Rounding is symmetric under negation, so the float operations commute with a change of sign, up
to the sign of a zero result (`EqUpToZeroSign`). Squares and sums of squares have the positive
sign, and on such floats the IEEE comparison is the linear order of `orderKey`.
-/

namespace CrystalLattice.Binary64

open Float.Model Float.Model.UnpackedFloat

section Unpacked

theorem sign_neg_neg (s : Sign) : - -s = s := by cases s <;> rfl

theorem sign_neg_mul (s t : Sign) : -s * t = -(s * t) := by cases s <;> cases t <;> rfl

theorem sign_mul_neg (s t : Sign) : s * -t = -(s * t) := by cases s <;> cases t <;> rfl

theorem sign_mul_self (s : Sign) : s * s = .positive := by cases s <;> rfl

@[simp] theorem UnpackedFloat.neg_neg (u : UnpackedFloat) : u.neg.neg = u := by
  cases u <;> simp [UnpackedFloat.neg, sign_neg_neg]

/-- The float with a zero of either sign replaced by the positive zero. -/
def clearZeroSign : UnpackedFloat → UnpackedFloat
  | .zero _ => .zero .positive
  | u => u

@[simp] theorem clearZeroSign_zero (s : Sign) : clearZeroSign (.zero s) = .zero .positive := rfl

theorem clearZeroSign_eq_zero_iff {u : UnpackedFloat} :
    clearZeroSign u = .zero .positive ↔ ∃ s, u = .zero s := by
  cases u <;> simp [clearZeroSign]

theorem clearZeroSign_of_ne_zero {u : UnpackedFloat} (h : ¬∃ s, u = .zero s) :
    clearZeroSign u = u := by
  cases u <;> simp_all [clearZeroSign]

theorem clearZeroSign_neg (u : UnpackedFloat) :
    clearZeroSign (clearZeroSign u).neg = clearZeroSign u.neg := by
  cases u <;> rfl

theorem roundWithAccuracy_neg (spec : Format) (s : Sign) (m : ℕ) (e : ℤ) (acc : Accuracy) :
    roundWithAccuracy spec (-s) m e acc = (roundWithAccuracy spec s m e acc).neg := by
  unfold roundWithAccuracy
  dsimp only
  split_ifs <;> rfl

theorem round_neg (spec : Format) (s : Sign) (m : ℕ) (e : ℤ) :
    UnpackedFloat.round spec (-s) m e = (UnpackedFloat.round spec s m e).neg :=
  roundWithAccuracy_neg ..

/-- Normalising the opposite mantissa gives the opposite float; a zero mantissa gives the zero
of the sign asked for, whichever it is. -/
theorem normalize_neg (spec : Format) (M e : ℤ) (z z' : Sign) :
    clearZeroSign (normalize spec (-M) e z) = clearZeroSign (normalize spec M e z').neg := by
  rcases lt_trichotomy M 0 with h | rfl | h
  · have h₁ : compare (-M) 0 = .gt := compare_gt_iff_gt.mpr (by omega)
    have h₂ : compare M 0 = .lt := compare_lt_iff_lt.mpr h
    simp only [UnpackedFloat.normalize, h₁, h₂]
    rw [show Sign.negative = -Sign.positive from rfl, round_neg, UnpackedFloat.neg_neg]
  · rfl
  · have h₁ : compare (-M) 0 = .lt := compare_lt_iff_lt.mpr (by omega)
    have h₂ : compare M 0 = .gt := compare_gt_iff_gt.mpr h
    simp only [UnpackedFloat.normalize, h₁, h₂, Int.neg_neg]
    rw [show Sign.negative = -Sign.positive from rfl, round_neg]

theorem add_neg_neg (spec : Format) (a b : UnpackedFloat) :
    clearZeroSign (add spec a.neg b.neg) = clearZeroSign (add spec a b).neg := by
  cases a <;> cases b
  case infinity.infinity s t => cases s <;> cases t <;> rfl
  case zero.zero s t => cases s <;> cases t <;> rfl
  case finite.finite s m e hm t n f hn =>
    simp only [UnpackedFloat.add, UnpackedFloat.neg, apply_neg_sign, ← neg_add]
    exact normalize_neg ..
  all_goals rfl

theorem add_comm (spec : Format) (a b : UnpackedFloat) : add spec a b = add spec b a := by
  cases a <;> cases b
  case infinity.infinity s t => cases s <;> cases t <;> rfl
  case zero.zero s t => cases s <;> cases t <;> rfl
  case finite.finite s m e hm t n f hn =>
    simp only [UnpackedFloat.add, min_comm f e, Int.add_comm]
  all_goals rfl

theorem sub_swap (spec : Format) (a b : UnpackedFloat) :
    clearZeroSign (sub spec b a) = clearZeroSign (sub spec a b).neg := by
  rw [sub_eq_add_neg, sub_eq_add_neg, ← add_neg_neg, UnpackedFloat.neg_neg, add_comm]

theorem mul_neg_left (spec : Format) (a b : UnpackedFloat) :
    mul spec a.neg b = (mul spec a b).neg := by
  cases a <;> cases b <;>
    simp only [UnpackedFloat.mul, UnpackedFloat.neg, sign_neg_mul, roundWithAccuracy_neg]

theorem mul_neg_right (spec : Format) (a b : UnpackedFloat) :
    mul spec a b.neg = (mul spec a b).neg := by
  cases a <;> cases b <;>
    simp only [UnpackedFloat.mul, UnpackedFloat.neg, sign_mul_neg, roundWithAccuracy_neg]

/-- A square does not see the sign of its argument, nor that of a zero. -/
theorem mul_self_clearZeroSign (spec : Format) (a : UnpackedFloat) :
    mul spec (clearZeroSign a) (clearZeroSign a) = mul spec a a := by
  cases a
  case zero s => cases s <;> rfl
  all_goals rfl

theorem clearZeroSign_mul_left (spec : Format) (a b : UnpackedFloat) :
    clearZeroSign (mul spec (clearZeroSign a) b) = clearZeroSign (mul spec a b) := by
  cases a <;> cases b <;> rfl

theorem clearZeroSign_add (spec : Format) (a b : UnpackedFloat) :
    clearZeroSign (add spec (clearZeroSign a) (clearZeroSign b)) = clearZeroSign (add spec a b) := by
  cases a <;> cases b
  case zero.zero s t => cases s <;> cases t <;> rfl
  all_goals rfl

end Unpacked

section Signs

/-- `u` is a NaN or has the sign `s`. -/
def HasSign (s : Sign) : UnpackedFloat → Prop
  | .notANumber => True
  | .infinity t | .zero t | .finite t .. => t = s

theorem hasSign_roundWithAccuracy (spec : Format) (s : Sign) (m : ℕ) (e : ℤ) (acc : Accuracy) :
    HasSign s (roundWithAccuracy spec s m e acc) := by
  unfold roundWithAccuracy
  dsimp only
  split_ifs <;> rfl

theorem hasSign_mul_self (spec : Format) (a : UnpackedFloat) : HasSign .positive (mul spec a a) := by
  cases a with
  | infinity s => exact sign_mul_self s
  | notANumber => trivial
  | zero s => exact sign_mul_self s
  | finite s m e hm =>
    show HasSign _ (roundWithAccuracy spec (s * s) (m * m) (e + e) .exact)
    rw [sign_mul_self]
    exact hasSign_roundWithAccuracy ..

theorem hasSign_normalize_of_nonneg (spec : Format) {M : ℤ} (hM : 0 ≤ M) (e : ℤ) :
    HasSign .positive (normalize spec M e .positive) := by
  rcases hM.lt_or_eq with h | rfl
  · have hcmp : compare M 0 = .gt := compare_gt_iff_gt.mpr h
    simp only [UnpackedFloat.normalize, hcmp]
    exact hasSign_roundWithAccuracy ..
  · rfl

theorem HasSign.add {spec : Format} {a b : UnpackedFloat} (ha : HasSign .positive a)
    (hb : HasSign .positive b) : HasSign .positive (add spec a b) := by
  cases a <;> cases b <;> simp only [HasSign] at ha hb <;> (try subst ha) <;> (try subst hb)
  case finite.finite m e hm n f hn =>
    apply hasSign_normalize_of_nonneg
    simp only [Sign.apply]
    positivity
  all_goals trivial

end Signs

section Packing

theorem unpack_packComponents_neg (spec : Format) (s : Sign) (E : BitVec spec.exponentBits)
    (M : BitVec spec.mantissaBitsWithoutImplicit) :
    unpack spec (packComponents spec (-s) E M) = (unpack spec (packComponents spec s E M)).neg := by
  simp only [UnpackedFloat.unpack, unpackSign_packComponents, unpackExponent_packComponents,
    unpackMantissa_packComponents, Sign.ofBitVec_toBitVec]
  split_ifs <;> rfl

theorem hasSign_unpack_packComponents (spec : Format) (s : Sign) (E : BitVec spec.exponentBits)
    (M : BitVec spec.mantissaBitsWithoutImplicit) :
    HasSign s (unpack spec (packComponents spec s E M)) := by
  simp only [UnpackedFloat.unpack, unpackSign_packComponents, unpackExponent_packComponents,
    unpackMantissa_packComponents, Sign.ofBitVec_toBitVec]
  split_ifs <;> simp [HasSign]

/-- Packing commutes with negation: the word of `-u` is that of `u` with the sign bit flipped. -/
theorem unpack_pack_neg (spec : Format) (u : UnpackedFloat) :
    unpack spec (pack spec u.neg) = (unpack spec (pack spec u)).neg := by
  cases u with
  | notANumber => simp [UnpackedFloat.neg, UnpackedFloat.pack]
  | infinity s => exact unpack_packComponents_neg ..
  | zero s => exact unpack_packComponents_neg ..
  | finite s m e hm =>
    simp only [UnpackedFloat.neg, UnpackedFloat.pack]
    split_ifs <;> exact unpack_packComponents_neg ..

theorem HasSign.unpack_pack {spec : Format} {s : Sign} {u : UnpackedFloat} (h : HasSign s u) :
    HasSign s (unpack spec (pack spec u)) := by
  cases u with
  | notANumber => simp [UnpackedFloat.pack, HasSign]
  | infinity t =>
    subst h
    exact hasSign_unpack_packComponents ..
  | zero t =>
    subst h
    exact hasSign_unpack_packComponents ..
  | finite t m e hm =>
    subst h
    simp only [UnpackedFloat.pack]
    split_ifs <;> exact hasSign_unpack_packComponents ..

theorem clearZeroSign_unpack_pack (spec : Format) (u : UnpackedFloat) :
    clearZeroSign (unpack spec (pack spec (clearZeroSign u))) =
      clearZeroSign (unpack spec (pack spec u)) := by
  cases u
  case zero s => simp [UnpackedFloat.pack]
  all_goals rfl

theorem unpack_pack_congr {spec : Format} {u v : UnpackedFloat}
    (h : clearZeroSign u = clearZeroSign v) :
    clearZeroSign (unpack spec (pack spec u)) = clearZeroSign (unpack spec (pack spec v)) := by
  rw [← clearZeroSign_unpack_pack, h, clearZeroSign_unpack_pack]

end Packing

section Order

/-- The place of a float of positive sign in the IEEE order: zero, then the finite floats by
exponent and mantissa, then infinity. A NaN, which is unordered, is put last. -/
def orderKey : UnpackedFloat → ℕ ×ₗ (ℤ ×ₗ ℕ)
  | .zero _ => toLex (0, toLex (0, 0))
  | .finite _ m e _ => toLex (1, toLex (e, m))
  | .infinity _ => toLex (2, toLex (0, 0))
  | .notANumber => toLex (3, toLex (0, 0))

/-- On floats of positive sign other than NaN, the IEEE comparison is that of the keys. -/
theorem lt_iff_orderKey_lt {a b : UnpackedFloat} (ha : HasSign .positive a)
    (hb : HasSign .positive b) (ha' : a ≠ .notANumber) (hb' : b ≠ .notANumber) :
    a.lt b = true ↔ orderKey a < orderKey b := by
  cases a <;> cases b <;> simp only [HasSign] at ha hb <;> (try subst ha) <;> (try subst hb)
  all_goals simp_all [UnpackedFloat.lt, UnpackedFloat.compare, orderKey, Prod.Lex.toLex_lt_toLex,
    Ordering.then_eq_lt, compare_lt_iff_lt]

theorem ne_notANumber_of_lt {a b : UnpackedFloat} (h : a.lt b = true) :
    a ≠ .notANumber ∧ b ≠ .notANumber := by
  cases a <;> cases b <;> simp_all [UnpackedFloat.lt, UnpackedFloat.compare]

theorem infinity_positive_lt (b : UnpackedFloat) : (UnpackedFloat.infinity .positive).lt b = false := by
  cases b
  case infinity t => cases t <;> rfl
  all_goals rfl

theorem orderKey_inj {a b : UnpackedFloat} (ha : HasSign .positive a) (hb : HasSign .positive b)
    (h : orderKey a = orderKey b) : a = b := by
  cases a <;> cases b <;> simp only [HasSign] at ha hb <;> (try subst ha) <;> (try subst hb)
  all_goals simp_all [orderKey]

end Order

section Floats

theorem unpack_add (x y : Float) : (x + y).toModel.unpack =
    unpack .binary64 (pack .binary64 (add .binary64 x.toModel.unpack y.toModel.unpack)) := rfl

theorem unpack_sub (x y : Float) : (x - y).toModel.unpack =
    unpack .binary64 (pack .binary64 (sub .binary64 x.toModel.unpack y.toModel.unpack)) := rfl

theorem unpack_mul (x y : Float) : (x * y).toModel.unpack =
    unpack .binary64 (pack .binary64 (mul .binary64 x.toModel.unpack y.toModel.unpack)) := rfl

theorem unpack_neg (x : Float) : (-x).toModel.unpack = x.toModel.unpack.neg := by
  change unpack .binary64 (pack .binary64 (unpack .binary64 x.toModel.toBits.toBitVec).neg) = _
  rw [unpack_pack_neg, pack_unpack_of_valid x.toModel.valid]
  rfl

theorem unpack_zero : (0 : Float).toModel.unpack = .zero .positive := by
  rw [show (0 : Float) = Float.ofNat 0 from rfl, unpack_ofNat (by norm_num)]
  rfl

theorem beq_zero_iff (x : Float) : (x == 0) = true ↔ ∃ s, x.toModel.unpack = .zero s := by
  change x.toModel.unpack.beq (0 : Float).toModel.unpack = true ↔ _
  rw [unpack_zero, beq_iff_ne_notANumber_and_eq]
  constructor
  · rintro ⟨-, -, h | ⟨h, -⟩ | ⟨h, -⟩⟩ <;> exact ⟨_, h⟩
  · rintro ⟨s, h⟩
    rw [h]
    cases s <;> simp

/-- `x` and `y` are the same float up to the sign of a zero. -/
def EqUpToZeroSign (x y : Float) : Prop :=
  clearZeroSign x.toModel.unpack = clearZeroSign y.toModel.unpack

theorem eqUpToZeroSign_iff {x y : Float} :
    EqUpToZeroSign x y ↔ x = y ∨ (x == 0) = true ∧ (y == 0) = true := by
  rw [beq_zero_iff, beq_zero_iff, EqUpToZeroSign]
  constructor
  · intro h
    by_cases hx : ∃ s, x.toModel.unpack = .zero s
    · obtain ⟨s, hs⟩ := hx
      rw [hs, clearZeroSign_zero, eq_comm, clearZeroSign_eq_zero_iff] at h
      exact .inr ⟨⟨s, hs⟩, h⟩
    · have hy : ¬∃ t, y.toModel.unpack = .zero t := by
        rintro ⟨t, ht⟩
        rw [ht, clearZeroSign_zero, clearZeroSign_eq_zero_iff] at h
        exact hx h
      rw [clearZeroSign_of_ne_zero hx, clearZeroSign_of_ne_zero hy] at h
      exact .inl (eq_of_unpack_eq h)
  · rintro (rfl | ⟨⟨s, hx⟩, ⟨t, hy⟩⟩)
    · rfl
    · rw [hx, hy]
      rfl

variable {x y x' y' : Float}

theorem eqUpToZeroSign_sub_swap (x y : Float) : EqUpToZeroSign (y - x) (-(x - y)) := by
  rw [EqUpToZeroSign, unpack_neg, unpack_sub, unpack_sub, ← unpack_pack_neg]
  exact unpack_pack_congr (sub_swap ..)

theorem EqUpToZeroSign.add_neg (hx : EqUpToZeroSign x' (-x)) (hy : EqUpToZeroSign y' (-y)) :
    EqUpToZeroSign (x' + y') (-(x + y)) := by
  rw [EqUpToZeroSign, unpack_neg] at hx hy ⊢
  rw [unpack_add, unpack_add, ← unpack_pack_neg]
  apply unpack_pack_congr
  rw [← add_neg_neg, ← clearZeroSign_add, hx, hy, clearZeroSign_add]

theorem EqUpToZeroSign.mul_neg (hx : EqUpToZeroSign x' (-x)) (r : Float) :
    EqUpToZeroSign (x' * r) (-(x * r)) := by
  rw [EqUpToZeroSign, unpack_neg] at hx ⊢
  rw [unpack_mul, unpack_mul, ← unpack_pack_neg]
  apply unpack_pack_congr
  rw [← mul_neg_left, ← clearZeroSign_mul_left, hx, clearZeroSign_mul_left]

theorem EqUpToZeroSign.mul_self (hx : EqUpToZeroSign x' (-x)) : x' * x' = x * x := by
  rw [EqUpToZeroSign, unpack_neg] at hx
  apply eq_of_unpack_eq
  rw [unpack_mul, unpack_mul, ← mul_self_clearZeroSign, hx, mul_self_clearZeroSign,
    mul_neg_left, mul_neg_right, UnpackedFloat.neg_neg]

theorem eqUpToZeroSign_zero_neg : EqUpToZeroSign 0 (-0) := by
  rw [EqUpToZeroSign, unpack_neg, unpack_zero]
  rfl

theorem eqUpToZeroSign_ofInt_neg {n : ℤ} (h : |n| < 2 ^ 53) :
    EqUpToZeroSign (Float.ofInt (-n)) (-Float.ofInt n) := by
  rw [EqUpToZeroSign, unpack_neg, unpack_ofInt h, unpack_ofInt (by rwa [abs_neg])]
  by_cases hn : n = 0
  · subst hn
    rfl
  · rw [neg_intForm hn]

end Floats

section PositiveSign

/-- `x` is a NaN or has the positive sign, as squares and sums of squares do. -/
def HasPositiveSign (x : Float) : Prop := HasSign .positive x.toModel.unpack

variable {x y z : Float}

theorem hasPositiveSign_mul_self (x : Float) : HasPositiveSign (x * x) :=
  (hasSign_mul_self ..).unpack_pack

theorem HasPositiveSign.add (hx : HasPositiveSign x) (hy : HasPositiveSign y) :
    HasPositiveSign (x + y) :=
  (HasSign.add hx hy).unpack_pack

theorem lt_iff_unpack_lt : x < y ↔ x.toModel.unpack.lt y.toModel.unpack = true := by
  change decide (x.toModel.unpack.lt y.toModel.unpack = true) = true ↔ _
  exact decide_eq_true_iff

theorem unpack_ne_notANumber_of_isFinite (h : x.isFinite = true) :
    x.toModel.unpack ≠ .notANumber := by
  intro hn
  change x.toModel.unpack.isFinite = true at h
  rw [hn] at h
  exact Bool.false_ne_true h

theorem float_lt_irrefl (x : Float) : ¬x < x := by
  rw [lt_iff_unpack_lt]
  cases x.toModel.unpack
  case infinity s => cases s <;> decide
  case zero s => cases s <;> decide
  case finite s m e hm => cases s <;> simp [UnpackedFloat.lt, UnpackedFloat.compare]
  case notANumber => decide

theorem HasPositiveSign.lt_trans (hx : HasPositiveSign x) (hy : HasPositiveSign y)
    (hz : HasPositiveSign z) (hxy : x < y) (hyz : y < z) : x < z := by
  rw [lt_iff_unpack_lt] at hxy hyz ⊢
  obtain ⟨hx', hy'⟩ := ne_notANumber_of_lt hxy
  obtain ⟨-, hz'⟩ := ne_notANumber_of_lt hyz
  rw [lt_iff_orderKey_lt hx hy hx' hy'] at hxy
  rw [lt_iff_orderKey_lt hy hz hy' hz'] at hyz
  exact (lt_iff_orderKey_lt hx hz hx' hz').mpr (hxy.trans hyz)

theorem HasPositiveSign.isFinite_of_lt (hx : HasPositiveSign x) (h : x < y) :
    x.isFinite = true := by
  rw [lt_iff_unpack_lt] at h
  have hx' := (ne_notANumber_of_lt h).1
  change x.toModel.unpack.isFinite = true
  unfold HasPositiveSign at hx
  cases hu : x.toModel.unpack <;> rw [hu] at hx hx' h
  case notANumber => exact absurd rfl hx'
  case infinity s =>
    subst hx
    rw [infinity_positive_lt] at h
    exact absurd h Bool.false_ne_true
  all_goals rfl

/-- Two finite floats of positive sign, neither below the other, are the same float: only
the positive zero can occur among them. -/
theorem HasPositiveSign.eq_of_not_lt (hx : HasPositiveSign x) (hy : HasPositiveSign y)
    (hxf : x.isFinite = true) (hyf : y.isFinite = true) (h₁ : ¬x < y) (h₂ : ¬y < x) : x = y := by
  have hx' := unpack_ne_notANumber_of_isFinite hxf
  have hy' := unpack_ne_notANumber_of_isFinite hyf
  rw [lt_iff_unpack_lt, lt_iff_orderKey_lt hx hy hx' hy'] at h₁
  rw [lt_iff_unpack_lt, lt_iff_orderKey_lt hy hx hy' hx'] at h₂
  exact eq_of_unpack_eq (orderKey_inj hx hy (le_antisymm (not_lt.mp h₂) (not_lt.mp h₁)))

end PositiveSign

end CrystalLattice.Binary64
