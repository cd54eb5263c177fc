import Mathlib
import CrystalLattice.Proofs.ScaleEquivariance
import CrystalLattice.Proofs.Binary64Sign

/-!
# Floating point with an unbounded exponent

The float operations stated once for any exponent rule (`roundAt`, `addAt`, `mulAt`, `divAt`).
A rule that commutes with shifts makes every operation commute with scaling by powers of two;
`UnboundedFloat` is binary64 without its exponent range (`unboundedScaling`).
-/

namespace CrystalLattice

open Float.Model Float.Model.UnpackedFloat

namespace Unpacked

section Rule

-- The rule that gives a result with leading bit at position `t` its exponent.
variable (rule : ℤ → ℤ)

/-- Round a finite value with the given accuracy to the exponent of the rule, to nearest with
ties to even; the second shift takes up a carry out of the rounding. -/
def roundAt (s : Sign) (m : ℕ) (e : ℤ) (acc : Accuracy) : UnpackedFloat :=
  let (em₁, e₁) := shiftToExponent m e acc (rule (totalExponent m e))
  let r := em₁.roundedMantissa
  let (em₂, e₂) := shiftToExponent r e₁ .exact (rule (totalExponent r e₁))
  if h : em₂.mantissa = 0 then .zero s else .finite s em₂.mantissa e₂ (Nat.pos_of_ne_zero h)

def roundExactAt (s : Sign) (m : ℕ) (e : ℤ) : UnpackedFloat :=
  let (m, e) := decreaseExponent m e (rule (totalExponent m e))
  roundAt rule s m e .exact

def normalizeAt (mantissa exponent : ℤ) (zeroSign : Sign) : UnpackedFloat :=
  match compare mantissa 0 with
  | .lt => roundExactAt rule .negative (-mantissa).toNat exponent
  | .eq => .zero zeroSign
  | .gt => roundExactAt rule .positive mantissa.toNat exponent

def addAt : UnpackedFloat → UnpackedFloat → UnpackedFloat
  | .notANumber, _ => .notANumber
  | _, .notANumber => .notANumber
  | .infinity sign₁, .infinity sign₂ => if sign₁ == sign₂ then .infinity sign₁ else .notANumber
  | .infinity s, _ => .infinity s
  | _, .infinity s => .infinity s
  | .zero sign₁, .zero sign₂ => if sign₁ == sign₂ then .zero sign₁ else .zero .positive
  | .zero _, y => y
  | x, .zero _ => x
  | .finite s₁ m₁ e₁ _, .finite s₂ m₂ e₂ _ =>
    let smallerExponent := min e₁ e₂
    let (m₁, _) := decreaseExponent m₁ e₁ smallerExponent
    let (m₂, _) := decreaseExponent m₂ e₂ smallerExponent
    normalizeAt rule (s₁.apply m₁ + s₂.apply m₂) smallerExponent .positive

def subAt (x y : UnpackedFloat) : UnpackedFloat := addAt rule x y.neg

def mulAt : UnpackedFloat → UnpackedFloat → UnpackedFloat
  | .notANumber, _ => .notANumber
  | _, .notANumber => .notANumber
  | .infinity sign₁, .infinity sign₂ => .infinity (sign₁ * sign₂)
  | .infinity sign₁, .finite sign₂ .. => .infinity (sign₁ * sign₂)
  | .finite sign₁ .., .infinity sign₂ => .infinity (sign₁ * sign₂)
  | .infinity _, .zero _ => .notANumber
  | .zero _, .infinity _ => .notANumber
  | .finite sign₁ .., .zero sign₂ => .zero (sign₁ * sign₂)
  | .zero sign₁, .finite sign₂ .. => .zero (sign₁ * sign₂)
  | .zero sign₁, .zero sign₂ => .zero (sign₁ * sign₂)
  | .finite s₁ m₁ e₁ _, .finite s₂ m₂ e₂ _ => roundAt rule (s₁ * s₂) (m₁ * m₂) (e₁ + e₂) .exact

/-- A quotient of mantissas with enough bits for the rule's exponent, its exponent, and how it
relates to the exact quotient. -/
def divCoreAt (m₁ : ℕ) (e₁ : ℤ) (m₂ : ℕ) (e₂ : ℤ) : ℕ × ℤ × Accuracy :=
  let targetExponent := min (e₁ - e₂) (rule (totalExponent m₁ e₁ - totalExponent m₂ e₂))
  let m := m₁ <<< (e₁ - e₂ - targetExponent).toNat
  (m / m₂, targetExponent, accuracyOfFraction (m % m₂) m₂)

def divAt : UnpackedFloat → UnpackedFloat → UnpackedFloat
  | .notANumber, _ => .notANumber
  | _, .notANumber => .notANumber
  | .infinity _, .infinity _ => .notANumber
  | .infinity sign₁, .finite sign₂ .. => .infinity (sign₁ / sign₂)
  | .finite sign₁ .., .infinity sign₂ => .zero (sign₁ / sign₂)
  | .infinity sign₁, .zero sign₂ => .infinity (sign₁ / sign₂)
  | .zero sign₁, .infinity sign₂ => .zero (sign₁ / sign₂)
  | .finite sign₁ .., .zero sign₂ => .infinity (sign₁ / sign₂)
  | .zero sign₁, .finite sign₂ .. => .zero (sign₁ / sign₂)
  | .zero _, .zero _ => .notANumber
  | .finite s₁ m₁ e₁ _, .finite s₂ m₂ e₂ _ =>
    let (m, e, acc) := divCoreAt rule m₁ e₁ m₂ e₂
    roundAt rule (s₁ / s₂) m e acc

end Rule

section Format

variable (spec : Format)

/-! The operations of a format are those of its exponent rule. -/

theorem roundWithAccuracy_eq_roundAt (s : Sign) (m : ℕ) (e : ℤ) (acc : Accuracy) :
    roundWithAccuracy spec s m e acc = roundAt spec.targetExponent s m e acc := rfl

theorem normalize_eq_normalizeAt (M e : ℤ) (z : Sign) :
    normalize spec M e z = normalizeAt spec.targetExponent M e z := rfl

theorem add_eq_addAt (x y : UnpackedFloat) : add spec x y = addAt spec.targetExponent x y := by
  cases x <;> cases y <;> rfl

theorem sub_eq_subAt (x y : UnpackedFloat) : sub spec x y = subAt spec.targetExponent x y := by
  rw [Binary64.sub_eq_add_neg, add_eq_addAt, subAt]

theorem mul_eq_mulAt (x y : UnpackedFloat) : mul spec x y = mulAt spec.targetExponent x y := by
  cases x <;> cases y <;> rfl

theorem div_eq_divAt (x y : UnpackedFloat) : div spec x y = divAt spec.targetExponent x y := by
  cases x <;> cases y <;> rfl

end Format

/-- Scaling by `2 ^ k`: the exponent of a finite value moves by `k`; zeros, infinities and NaN
stay. -/
def shiftExponent (k : ℤ) : UnpackedFloat → UnpackedFloat
  | .finite s m e h => .finite s m (e + k) h
  | u => u

def CommutesWithShift (rule : ℤ → ℤ) : Prop := ∀ t k, rule (t + k) = rule t + k

section Shift

@[simp] theorem shiftExponent_zero (u : UnpackedFloat) : shiftExponent 0 u = u := by
  cases u <;> simp only [shiftExponent, add_zero]

theorem neg_shiftExponent (k : ℤ) (u : UnpackedFloat) :
    (shiftExponent k u).neg = shiftExponent k u.neg := by
  cases u <;> rfl

theorem compare_add_add (a b k : ℤ) : compare (a + k) (b + k) = compare a b := by
  rcases lt_trichotomy a b with h | rfl | h
  · rw [compare_lt_iff_lt.mpr h, compare_lt_iff_lt.mpr (by omega)]
  · rw [compare_eq_iff_eq.mpr rfl, compare_eq_iff_eq.mpr rfl]
  · rw [compare_gt_iff_gt.mpr h, compare_gt_iff_gt.mpr (by omega)]

theorem compare_shiftExponent (k : ℤ) (x y : UnpackedFloat) :
    (shiftExponent k x).compare (shiftExponent k y) = x.compare y := by
  cases x with
  | finite s₁ m₁ e₁ h₁ =>
    cases y with
    | finite s₂ m₂ e₂ h₂ =>
      cases s₁ <;> cases s₂ <;> simp only [shiftExponent, UnpackedFloat.compare, compare_add_add]
    | infinity s₂ => cases s₁ <;> cases s₂ <;> rfl
    | zero s₂ => cases s₁ <;> rfl
    | notANumber => rfl
  | infinity s₁ =>
    cases y with
    | finite s₂ m₂ e₂ h₂ => cases s₁ <;> cases s₂ <;> rfl
    | _ => rfl
  | zero s₁ =>
    cases y with
    | finite s₂ m₂ e₂ h₂ => cases s₂ <;> rfl
    | _ => rfl
  | notANumber => rfl

theorem totalExponent_add (m : ℕ) (e k : ℤ) : totalExponent m (e + k) = totalExponent m e + k := by
  unfold totalExponent
  ring

theorem shiftToExponent_add (m : ℕ) (e : ℤ) (acc : Accuracy) (t k : ℤ) :
    shiftToExponent m (e + k) acc (t + k) =
      ((shiftToExponent m e acc t).1, (shiftToExponent m e acc t).2 + k) := by
  have hamount : t + k - (e + k) = t - e := by ring
  simp only [shiftToExponent, hamount]
  exact Prod.ext rfl (by ring)

theorem decreaseExponent_add (m : ℕ) (e t k : ℤ) :
    decreaseExponent m (e + k) (t + k) =
      ((decreaseExponent m e t).1, (decreaseExponent m e t).2 + k) := by
  have hamount : e + k - (t + k) = e - t := by ring
  simp only [decreaseExponent, hamount]
  exact Prod.ext rfl (by ring)

variable {rule : ℤ → ℤ} (hrule : CommutesWithShift rule)
include hrule

/-- Rounding at a shifted exponent is the shifted rounding: both shifts move by the same
number of bits, since the rule moves the target with the leading bit. -/
theorem roundAt_add (s : Sign) (m : ℕ) (e : ℤ) (acc : Accuracy) (k : ℤ) :
    roundAt rule s m (e + k) acc = shiftExponent k (roundAt rule s m e acc) := by
  simp only [roundAt, totalExponent_add, hrule _ k, shiftToExponent_add]
  split_ifs <;> rfl

theorem roundExactAt_add (s : Sign) (m : ℕ) (e k : ℤ) :
    roundExactAt rule s m (e + k) = shiftExponent k (roundExactAt rule s m e) := by
  simp only [roundExactAt, totalExponent_add, hrule _ k, decreaseExponent_add]
  exact roundAt_add hrule s _ _ .exact k

theorem normalizeAt_add (M e : ℤ) (z : Sign) (k : ℤ) :
    normalizeAt rule M (e + k) z = shiftExponent k (normalizeAt rule M e z) := by
  unfold normalizeAt
  split
  · exact roundExactAt_add hrule _ _ e k
  · rfl
  · exact roundExactAt_add hrule _ _ e k

theorem addAt_shiftExponent (k : ℤ) (x y : UnpackedFloat) :
    addAt rule (shiftExponent k x) (shiftExponent k y) = shiftExponent k (addAt rule x y) := by
  cases x with
  | finite s₁ m₁ e₁ h₁ =>
    cases y with
    | finite s₂ m₂ e₂ h₂ =>
      simp only [shiftExponent, addAt, min_add_add_right, decreaseExponent_add,
        normalizeAt_add hrule]
    | _ => rfl
  | infinity s₁ =>
    cases y with
    | infinity s₂ => cases s₁ <;> cases s₂ <;> rfl
    | _ => rfl
  | zero s₁ =>
    cases y with
    | zero s₂ => cases s₁ <;> cases s₂ <;> rfl
    | _ => rfl
  | notANumber => rfl

theorem subAt_shiftExponent (k : ℤ) (x y : UnpackedFloat) :
    subAt rule (shiftExponent k x) (shiftExponent k y) = shiftExponent k (subAt rule x y) := by
  rw [subAt, subAt, neg_shiftExponent, addAt_shiftExponent hrule]

theorem mulAt_shiftExponent (k l : ℤ) (x y : UnpackedFloat) :
    mulAt rule (shiftExponent k x) (shiftExponent l y) = shiftExponent (k + l) (mulAt rule x y) := by
  cases x with
  | finite s₁ m₁ e₁ h₁ =>
    cases y with
    | finite s₂ m₂ e₂ h₂ =>
      have hexp : e₁ + k + (e₂ + l) = e₁ + e₂ + (k + l) := by ring
      simp only [shiftExponent, mulAt, hexp, roundAt_add hrule]
    | _ => rfl
  | _ => cases y <;> rfl

theorem divCoreAt_add (m₁ : ℕ) (e₁ : ℤ) (m₂ : ℕ) (e₂ k l : ℤ) :
    divCoreAt rule m₁ (e₁ + k) m₂ (e₂ + l) =
      ((divCoreAt rule m₁ e₁ m₂ e₂).1, (divCoreAt rule m₁ e₁ m₂ e₂).2.1 + (k - l),
        (divCoreAt rule m₁ e₁ m₂ e₂).2.2) := by
  have hexp : e₁ + k - (e₂ + l) = e₁ - e₂ + (k - l) := by ring
  have htotal : totalExponent m₁ (e₁ + k) - totalExponent m₂ (e₂ + l) =
      totalExponent m₁ e₁ - totalExponent m₂ e₂ + (k - l) := by
    rw [totalExponent_add, totalExponent_add]
    ring
  simp only [divCoreAt, hexp, htotal, hrule _ (k - l), min_add_add_right, add_sub_add_right_eq_sub]

theorem divAt_shiftExponent (k l : ℤ) (x y : UnpackedFloat) :
    divAt rule (shiftExponent k x) (shiftExponent l y) = shiftExponent (k - l) (divAt rule x y) := by
  cases x with
  | finite s₁ m₁ e₁ h₁ =>
    cases y with
    | finite s₂ m₂ e₂ h₂ =>
      simp only [shiftExponent, divAt, divCoreAt_add hrule, roundAt_add hrule]
    | _ => rfl
  | _ => cases y <;> rfl

end Shift

/-- The exponent rule without a range: a result keeps 53 significant bits wherever it lies.
Binary64's rule is this one floored at the format's least exponent. -/
def unboundedRule (t : ℤ) : ℤ := t - 53

theorem unboundedRule_commutesWithShift : CommutesWithShift unboundedRule := fun t k => by
  unfold unboundedRule
  ring

/-- A mantissa of at most 53 bits is exact under the unbounded rule: it is shifted up to a full
significand and its exponent lowered to match. -/
theorem roundExactAt_unboundedRule (s : Sign) {m : ℕ} (hm : 0 < m) (h : m < 2 ^ 53) (e : ℤ) :
    roundExactAt unboundedRule s m e =
      .finite s (Binary64.normalMantissa m) (e - (52 - m.log2 : ℕ)) (Binary64.normalMantissa_pos hm) := by
  have hl := Binary64.log2_le_of_lt h
  have hshift : (e - unboundedRule (totalExponent m e)).toNat = 52 - m.log2 := by
    unfold unboundedRule totalExponent
    omega
  have htarget : unboundedRule (totalExponent (m <<< (52 - m.log2)) (e - (52 - m.log2 : ℕ))) =
      e - (52 - m.log2 : ℕ) := by
    unfold unboundedRule totalExponent
    rw [Binary64.log2_shiftLeft hm.ne']
    omega
  have hexact : ∀ M : ℕ, ExtendedMantissa.ofMantissaAndAccuracy M .exact >>> 0 = ⟨M, false, false⟩ :=
    fun _ => rfl
  have hround : ∀ M : ℕ, (⟨M, false, false⟩ : ExtendedMantissa).roundedMantissa = M := fun _ => rfl
  have hne : m <<< (52 - m.log2) ≠ 0 := (Binary64.normalMantissa_pos hm).ne'
  simp only [roundExactAt, decreaseExponent, hshift, roundAt, shiftToExponent, htarget, sub_self,
    Int.toNat_zero, hexact, hround, Nat.cast_zero, add_zero, hne, dite_false]
  rfl

/-- A binary64 value in the unbounded arithmetic: a subnormal gets a full significand. -/
def widen : UnpackedFloat → UnpackedFloat
  | .finite s m e _ => roundExactAt unboundedRule s m e
  | u => u

/-- Widening keeps every binary64 value that is not finite, and gives a finite one, normal with
exponent at least `-1074` or subnormal at `-1074`, a full significand and the exponent lowered
to match. -/
theorem widen_unpack (v : Float.Model) :
    (widen v.unpack = v.unpack ∧ ∀ s m e hm, v.unpack ≠ .finite s m e hm) ∨
      ∃ s m e hm, v.unpack = .finite s m e hm ∧
        ((m.log2 = 52 ∧ -1074 ≤ e) ∨ (m.log2 < 52 ∧ e = -1074)) ∧
        widen v.unpack = .finite s (Binary64.normalMantissa m) (e - (52 - m.log2 : ℕ))
          (Binary64.normalMantissa_pos hm) := by
  cases hv : v.unpack with
  | finite s m e hm =>
    have hshape : (m.log2 = 52 ∧ -1074 ≤ e) ∨ (m.log2 < 52 ∧ e = -1074) := by
      rcases Binary64.unpack_finite_shape v hv with ⟨hl, he, -⟩ | ⟨hlt, he⟩
      · exact .inl ⟨hl, he⟩
      · exact .inr ⟨(Nat.log2_lt hm.ne').mpr hlt, he⟩
    have hlt : m < 2 ^ 53 := (Nat.log2_lt hm.ne').mp (by omega)
    exact .inr ⟨s, m, e, hm, rfl, hshape, roundExactAt_unboundedRule s hm hlt e⟩
  | infinity s => exact .inl ⟨rfl, fun _ _ _ _ h => nomatch h⟩
  | zero s => exact .inl ⟨rfl, fun _ _ _ _ h => nomatch h⟩
  | notANumber => exact .inl ⟨rfl, fun _ _ _ _ h => nomatch h⟩

end Unpacked

instance signDecidableEq : DecidableEq Sign
  | .negative, .negative => isTrue rfl
  | .positive, .positive => isTrue rfl
  | .negative, .positive | .positive, .negative => isFalse nofun

instance unpackedFloatDecidableEq : DecidableEq UnpackedFloat
  | .infinity s, .infinity t =>
    if h : s = t then isTrue (h ▸ rfl) else isFalse fun e => h (UnpackedFloat.infinity.inj e)
  | .notANumber, .notANumber => isTrue rfl
  | .zero s, .zero t =>
    if h : s = t then isTrue (h ▸ rfl) else isFalse fun e => h (UnpackedFloat.zero.inj e)
  | .finite s m e _, .finite t n f _ =>
    if h : s = t ∧ m = n ∧ e = f then isTrue (by obtain ⟨rfl, rfl, rfl⟩ := h; rfl)
    else isFalse fun e => h (by cases e; exact ⟨rfl, rfl, rfl⟩)
  | .infinity _, .notANumber | .infinity _, .zero _ | .infinity _, .finite .. => isFalse nofun
  | .notANumber, .infinity _ | .notANumber, .zero _ | .notANumber, .finite .. => isFalse nofun
  | .zero _, .infinity _ | .zero _, .notANumber | .zero _, .finite .. => isFalse nofun
  | .finite .., .infinity _ | .finite .., .notANumber | .finite .., .zero _ => isFalse nofun

/-- A number of binary floating point with 53-bit significands and no exponent range. -/
structure UnboundedFloat where
  unpacked : UnpackedFloat
  deriving DecidableEq

namespace UnboundedFloat

/-- A binary64 value as a number of the unbounded arithmetic: a subnormal gets a full
significand. -/
def ofFloat (x : Float) : UnboundedFloat := ⟨Unpacked.widen x.toModel.unpack⟩

open Unpacked in
/-- Distinct binary64 values are distinct numbers of the unbounded arithmetic, so an equation
between their images is one between the floats, bit for bit. -/
theorem ofFloat_injective : Function.Injective ofFloat := by
  intro x y hxy
  have h : widen x.toModel.unpack = widen y.toModel.unpack := congrArg unpacked hxy
  apply Binary64.eq_of_unpack_eq
  rcases widen_unpack x.toModel with ⟨hx, hxfin⟩ | ⟨s, m, e, hm, hx, hxshape, hxw⟩ <;>
    rcases widen_unpack y.toModel with ⟨hy, hyfin⟩ | ⟨s', m', e', hm', hy, hyshape, hyw⟩
  · rwa [hx, hy] at h
  · rw [hx, hyw] at h
    exact absurd h (hxfin _ _ _ _)
  · rw [hxw, hy] at h
    exact absurd h.symm (hyfin _ _ _ _)
  · rw [hxw, hyw] at h
    injection h with hs hM hE
    have hl : m.log2 = m'.log2 ∧ e = e' := by omega
    obtain ⟨hl, rfl⟩ := hl
    have hmm : m = m' := by
      unfold Binary64.normalMantissa at hM
      rw [hl, Nat.shiftLeft_eq, Nat.shiftLeft_eq] at hM
      exact Nat.eq_of_mul_eq_mul_right (Nat.two_pow_pos _) hM
    subst hs hmm
    rw [hx, hy]

/-- The binary64 value nearest a number: rounded into the format's range, infinite beyond it. -/
def toFloat (x : UnboundedFloat) : Float :=
  .ofModel (Float.Model.pack (match x.unpacked with
    | .finite s m e _ => round .binary64 s m e
    | u => u))

/-- The unbounded arithmetic. Sums, differences, products and quotients round to 53 bits at
any exponent; literals, integers and the integer roundings are those of binary64. -/
instance : Scalar UnboundedFloat where
  add x y := ⟨Unpacked.addAt Unpacked.unboundedRule x.unpacked y.unpacked⟩
  sub x y := ⟨Unpacked.subAt Unpacked.unboundedRule x.unpacked y.unpacked⟩
  mul x y := ⟨Unpacked.mulAt Unpacked.unboundedRule x.unpacked y.unpacked⟩
  div x y := ⟨Unpacked.divAt Unpacked.unboundedRule x.unpacked y.unpacked⟩
  neg x := ⟨x.unpacked.neg⟩
  ofScientific m s e := ofFloat (OfScientific.ofScientific m s e)
  zero := ⟨.zero .positive⟩
  one := ofFloat 1
  lt x y := x.unpacked.lt y.unpacked
  le x y := x.unpacked.le y.unpacked
  eq x y := x.unpacked.beq y.unpacked
  abs x := ⟨x.unpacked.abs⟩
  floor x := ofFloat (Binary64.floor x.toFloat)
  roundHalfEven x := ofFloat (Binary64.roundHalfEven x.toFloat)
  ofInt n := ofFloat (Float.ofInt n)
  isNaN x := x.unpacked matches .notANumber
  isFinite x := match x.unpacked with
    | .zero _ | .finite .. => true
    | _ => false

end UnboundedFloat

open Unpacked in
/-- Scaling by powers of two is exact in the unbounded arithmetic. -/
def unboundedScaling : PowerScaling UnboundedFloat where
  scale k x := ⟨shiftExponent k x.unpacked⟩
  scale_zero x := by rw [shiftExponent_zero]
  scale_scalarZero _ := rfl
  scale_add k x y :=
    congrArg UnboundedFloat.mk
      (addAt_shiftExponent unboundedRule_commutesWithShift k x.unpacked y.unpacked).symm
  scale_sub k x y :=
    congrArg UnboundedFloat.mk
      (subAt_shiftExponent unboundedRule_commutesWithShift k x.unpacked y.unpacked).symm
  scale_mul k l x y :=
    congrArg UnboundedFloat.mk
      (mulAt_shiftExponent unboundedRule_commutesWithShift k l x.unpacked y.unpacked).symm
  scale_div k l x y :=
    congrArg UnboundedFloat.mk
      (divAt_shiftExponent unboundedRule_commutesWithShift k l x.unpacked y.unpacked).symm
  le_scale k x y := by
    change UnpackedFloat.le _ _ = UnpackedFloat.le _ _
    simp only [UnpackedFloat.le, compare_shiftExponent]
  lt_scale k x y := by
    change UnpackedFloat.lt _ _ = UnpackedFloat.lt _ _
    simp only [UnpackedFloat.lt, compare_shiftExponent]
  eq_scale k x y := by
    change UnpackedFloat.beq _ _ = UnpackedFloat.beq _ _
    simp only [UnpackedFloat.beq, compare_shiftExponent]
  isFinite_scale k x := by
    obtain ⟨u⟩ := x
    cases u <;> rfl

end CrystalLattice
