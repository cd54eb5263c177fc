import Mathlib.Tactic
import CrystalLattice.Linear.Mat3

/-!
Exact arithmetic. Over the rationals the kernels compute without rounding: comparisons are
the order of `ℚ`, the absolute value is `|·|`, and rounding to the nearest integer moves a
number by at most one half. The lemmas here turn the scalar operations of the kernels into
those of the field, and vectors and matrices into their components, so that an identity
between vectors becomes three identities between rationals.
-/

namespace CrystalLattice

section Rational

@[simp] theorem scalar_zero_rat : (Scalar.zero : ℚ) = 0 := rfl

@[simp] theorem scalar_one_rat : (Scalar.one : ℚ) = 1 := rfl

@[simp] theorem scalar_le_rat (x y : ℚ) : Scalar.le x y = decide (x ≤ y) := rfl

@[simp] theorem scalar_lt_rat (x y : ℚ) : Scalar.lt x y = decide (x < y) := rfl

@[simp] theorem scalar_eq_rat (x y : ℚ) : Scalar.eq x y = decide (x = y) := rfl

@[simp] theorem scalar_isFinite_rat (x : ℚ) : Scalar.isFinite x = true := rfl

@[simp] theorem scalar_isNaN_rat (x : ℚ) : Scalar.isNaN x = false := rfl

@[simp] theorem scalar_ofInt_rat (n : ℤ) : (Scalar.ofInt n : ℚ) = n := rfl

@[simp] theorem scalar_roundHalfEven_rat (x : ℚ) :
    (Scalar.roundHalfEven x : ℚ) = ratRoundHalfEven x := rfl

@[simp] theorem scalar_abs_rat (x : ℚ) : Scalar.abs x = |x| := by
  change (if 0 ≤ x then x else -x) = |x|
  split_ifs with h
  · exact (abs_of_nonneg h).symm
  · exact (abs_of_neg (lt_of_not_ge h)).symm

@[simp] theorem scalar_floor_rat (x : ℚ) : (Scalar.floor x : ℚ) = ⌊x⌋ := rfl

theorem half_rat : (0.5 : ℚ) = 1 / 2 := by norm_num

/-- Rounding to the nearest integer moves a rational by at most one half, whichever way a
tie is broken. -/
theorem abs_sub_ratRoundHalfEven_le (q : ℚ) : |q - ratRoundHalfEven q| ≤ 1 / 2 := by
  have hfloor : q.floor = ⌊q⌋ := rfl
  have hlow : (⌊q⌋ : ℚ) ≤ q := Int.floor_le q
  have hhigh : q < ⌊q⌋ + 1 := Int.lt_floor_add_one q
  simp only [ratRoundHalfEven, hfloor]
  rw [abs_le]
  split_ifs <;> push_cast <;> constructor <;> linarith

theorem ratRoundHalfEven_intCast (n : ℤ) : ratRoundHalfEven n = n := by
  have hfloor : (n : ℚ).floor = ⌊(n : ℚ)⌋ := rfl
  simp [ratRoundHalfEven, hfloor]

end Rational

section Except

variable {ε ε' α β : Type}

theorem bind_eq_ok {x : Except ε α} {f : α → Except ε β} {b : β} (h : x >>= f = .ok b) :
    ∃ a, x = .ok a ∧ f a = .ok b := by
  cases x with
  | error e => cases h
  | ok a => exact ⟨a, rfl, h⟩

theorem mapError_eq_ok {x : Except ε α} {f : ε → ε'} {a : α} (h : x.mapError f = .ok a) :
    x = .ok a := by
  cases x with
  | error e => cases h
  | ok a' => cases h; rfl

theorem bind_eq_error {x : Except ε α} {f : α → Except ε β} {e : ε} (h : x >>= f = .error e) :
    x = .error e ∨ ∃ a, x = .ok a ∧ f a = .error e := by
  cases x with
  | error e' => exact .inl (by cases h; rfl)
  | ok a => exact .inr ⟨a, rfl, h⟩

theorem mapError_eq_error {x : Except ε α} {f : ε → ε'} {e : ε'} (h : x.mapError f = .error e) :
    ∃ e₀, x = .error e₀ ∧ e = f e₀ := by
  cases x with
  | error e₀ => cases h; exact ⟨e₀, rfl, rfl⟩
  | ok a => cases h

end Except

namespace Vec3

variable {α : Type}

@[ext] theorem ext {v w : Vec3 α} (hx : v.x = w.x) (hy : v.y = w.y) (hz : v.z = w.z) :
    v = w := by
  cases v
  cases w
  simp_all

@[simp] theorem get_zero (v : Vec3 α) : v.get 0 = v.x := rfl
@[simp] theorem get_one (v : Vec3 α) : v.get 1 = v.y := rfl
@[simp] theorem get_two (v : Vec3 α) : v.get 2 = v.z := rfl

@[simp] theorem ofFn_x (f : Fin 3 → α) : (ofFn f).x = f 0 := rfl
@[simp] theorem ofFn_y (f : Fin 3 → α) : (ofFn f).y = f 1 := rfl
@[simp] theorem ofFn_z (f : Fin 3 → α) : (ofFn f).z = f 2 := rfl

@[simp] theorem get_ofFn (f : Fin 3 → α) (i : Fin 3) : (ofFn f).get i = f i := by
  fin_cases i <;> rfl

@[simp] theorem get_set_self (v : Vec3 α) (i : Fin 3) (a : α) : (v.set i a).get i = a := by
  fin_cases i <;> rfl

theorem get_set_of_ne (v : Vec3 α) {i j : Fin 3} (a : α) (h : j ≠ i) :
    (v.set i a).get j = v.get j := by
  fin_cases i <;> fin_cases j <;> simp_all [set, get]

theorem set_get (v : Vec3 α) (i : Fin 3) : v.set i (v.get i) = v := by
  fin_cases i <;> rfl

section Field

@[simp] theorem zero_x : (zero : Vec3 ℚ).x = 0 := rfl
@[simp] theorem zero_y : (zero : Vec3 ℚ).y = 0 := rfl
@[simp] theorem zero_z : (zero : Vec3 ℚ).z = 0 := rfl

@[simp] theorem add_x (v w : Vec3 ℚ) : (v.add w).x = v.x + w.x := rfl
@[simp] theorem add_y (v w : Vec3 ℚ) : (v.add w).y = v.y + w.y := rfl
@[simp] theorem add_z (v w : Vec3 ℚ) : (v.add w).z = v.z + w.z := rfl

@[simp] theorem sub_x (v w : Vec3 ℚ) : (v.sub w).x = v.x - w.x := rfl
@[simp] theorem sub_y (v w : Vec3 ℚ) : (v.sub w).y = v.y - w.y := rfl
@[simp] theorem sub_z (v w : Vec3 ℚ) : (v.sub w).z = v.z - w.z := rfl

@[simp] theorem scale_x (a : ℚ) (v : Vec3 ℚ) : (v.scale a).x = a * v.x := rfl
@[simp] theorem scale_y (a : ℚ) (v : Vec3 ℚ) : (v.scale a).y = a * v.y := rfl
@[simp] theorem scale_z (a : ℚ) (v : Vec3 ℚ) : (v.scale a).z = a * v.z := rfl

theorem dot_def (v w : Vec3 ℚ) : v.dot w = v.x * w.x + v.y * w.y + v.z * w.z := rfl

theorem dot_comm (v w : Vec3 ℚ) : v.dot w = w.dot v := by
  simp only [dot_def]
  ring

theorem dot_zero_left (w : Vec3 ℚ) : zero.dot w = 0 := by
  simp [dot_def]

theorem dot_add_left (u v w : Vec3 ℚ) : (u.add v).dot w = u.dot w + v.dot w := by
  simp only [dot_def, add_x, add_y, add_z]
  ring

theorem dot_sub_left (u v w : Vec3 ℚ) : (u.sub v).dot w = u.dot w - v.dot w := by
  simp only [dot_def, sub_x, sub_y, sub_z]
  ring

theorem dot_scale_left (a : ℚ) (v w : Vec3 ℚ) : (v.scale a).dot w = a * v.dot w := by
  simp only [dot_def, scale_x, scale_y, scale_z]
  ring

theorem normSq_eq_dot (v : Vec3 ℚ) : v.normSq = v.dot v := rfl

theorem normSq_def (v : Vec3 ℚ) : v.normSq = v.x * v.x + v.y * v.y + v.z * v.z := rfl

theorem normSq_nonneg (v : Vec3 ℚ) : 0 ≤ v.normSq := by
  rw [normSq_def]
  exact add_nonneg (add_nonneg (mul_self_nonneg _) (mul_self_nonneg _)) (mul_self_nonneg _)

end Field

end Vec3

namespace Mat3

variable {α : Type}

@[ext] theorem ext {m n : Mat3 α} (h0 : m.r0 = n.r0) (h1 : m.r1 = n.r1) (h2 : m.r2 = n.r2) :
    m = n := by
  cases m
  cases n
  simp_all

@[simp] theorem row_zero (m : Mat3 α) : m.row 0 = m.r0 := rfl
@[simp] theorem row_one (m : Mat3 α) : m.row 1 = m.r1 := rfl
@[simp] theorem row_two (m : Mat3 α) : m.row 2 = m.r2 := rfl

theorem get_def (m : Mat3 α) (i j : Fin 3) : m.get i j = (m.row i).get j := rfl

theorem eq_of_row_eq {m n : Mat3 α} (h : ∀ i, m.row i = n.row i) : m = n :=
  ext (h 0) (h 1) (h 2)

@[simp] theorem row_setRow_self (m : Mat3 α) (i : Fin 3) (v : Vec3 α) :
    (m.setRow i v).row i = v := by
  fin_cases i <;> rfl

theorem row_setRow_of_ne (m : Mat3 α) {i j : Fin 3} (v : Vec3 α) (h : j ≠ i) :
    (m.setRow i v).row j = m.row j := by
  fin_cases i <;> fin_cases j <;> simp_all [setRow, row]

theorem setRow_row (m : Mat3 α) (i : Fin 3) : m.setRow i (m.row i) = m := by
  fin_cases i <;> rfl

theorem row_swapRows_left (m : Mat3 α) (i j : Fin 3) : (m.swapRows i j).row j = m.row i :=
  row_setRow_self _ _ _

theorem row_swapRows_right (m : Mat3 α) {i j : Fin 3} (h : i ≠ j) :
    (m.swapRows i j).row i = m.row j := by
  simp only [swapRows]
  rw [row_setRow_of_ne _ _ h, row_setRow_self]

theorem row_swapRows_of_ne (m : Mat3 α) {i j l : Fin 3} (hi : l ≠ i) (hj : l ≠ j) :
    (m.swapRows i j).row l = m.row l := by
  simp only [swapRows]
  rw [row_setRow_of_ne _ _ hj, row_setRow_of_ne _ _ hi]

@[simp] theorem row_ofFn (f : Fin 3 → Fin 3 → α) (i : Fin 3) :
    (ofFn f).row i = Vec3.ofFn (f i) := by
  fin_cases i <;> rfl

end Mat3

end CrystalLattice
