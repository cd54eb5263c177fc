import Mathlib
import CrystalLattice.Proofs.Binary64IntegerParts
import CrystalLattice.Proofs.PeriodicTranslation
import CrystalLattice.Proofs.FixedPoints

/-!
# The home cell

In binary64 the floor is exact, so a coordinate less its floor rounds from the fractional part
and lies in `[0, 1]`; the fold of a difference that reached one makes every wrapped coordinate
lie in `[0, 1)` (`InHomeInterval`), and wrapping twice changes nothing.
-/

namespace CrystalLattice

open Binary64 Reduction

/-- A float in the home interval `[0, 1)`: finite, of value in `[0, 1)`, and of the positive
sign, so that it is not the negative zero. -/
structure InHomeInterval (x : Float) : Prop where
  isFinite : x.isFinite = true
  hasPositiveSign : HasPositiveSign x
  value_nonneg : 0 ≤ value x
  value_lt_one : value x < 1

theorem inHomeInterval_zero : InHomeInterval 0 where
  isFinite := rfl
  hasPositiveSign := by
    unfold HasPositiveSign
    rw [unpack_zero]
    rfl
  value_nonneg := by rw [value_of_unpack_zero unpack_zero]
  value_lt_one := by
    rw [value_of_unpack_zero unpack_zero]
    norm_num

theorem get_wrap {α : Type} [Scalar α] (f : Vec3 α) (j : Fin 3) :
    (wrap f).get j = if Scalar.le Scalar.one (f.get j - Scalar.floor (f.get j)) then Scalar.zero
      else f.get j - Scalar.floor (f.get j) := by
  fin_cases j <;> rfl

section Coordinate

variable {x : Float}

theorem isFinite_one : (1 : Float).isFinite = true := isFinite_of_unpack_finite unpack_one

/-- A finite float less its floor is finite, of the positive sign, and of value in `[0, 1]`:
it rounds from the exact fractional part. -/
theorem sub_floor_bounds (hx : x.isFinite = true) :
    (x - floor x).isFinite = true ∧ HasPositiveSign (x - floor x) ∧
      0 ≤ value (x - floor x) ∧ value (x - floor x) ≤ 1 := by
  obtain ⟨hfl, hflv⟩ := floor_value hx
  have hle : value (floor x) ≤ value x := by
    rw [hflv]
    exact Int.floor_le _
  have hfract : value x - value (floor x) ≤ value 1 := by
    rw [value_one, hflv]
    linarith [Int.lt_floor_add_one (value x)]
  obtain ⟨hfin, h₀, h₁⟩ :=
    (RoundsFrom.sub_of_le hx hfl hle).value_mem isFinite_one (by rw [value_one]; norm_num) hfract
  have hsign := hasPositiveSign_sub hx hfl hle fun ⟨hz, hz'⟩ => by
    rw [floor_of_unpack_zero hz, hz] at hz'
    cases hz'
  exact ⟨hfin, hsign, h₀, by rwa [value_one] at h₁⟩

/-- A wrapped coordinate lies in the home interval: a difference from the floor that rounds up
to one is folded to the positive zero. -/
theorem inHomeInterval_wrapCoordinate (hx : x.isFinite = true) :
    InHomeInterval (if Scalar.le Scalar.one (x - Scalar.floor x) then Scalar.zero
      else x - Scalar.floor x) := by
  obtain ⟨hfin, hsign, h₀, h₁⟩ := sub_floor_bounds hx
  show InHomeInterval (if Scalar.le (1 : Float) (x - floor x) then 0 else x - floor x)
  rw [scalar_le_float]
  split_ifs with hge
  · exact inHomeInterval_zero
  · refine ⟨hfin, hsign, h₀, lt_of_le_of_ne h₁ fun hone => hge (decide_eq_true ?_)⟩
    exact le_of_value_le isFinite_one hfin (by rw [value_one]; norm_num) (by rw [value_one, hone])

theorem wrapCoordinate_of_inHomeInterval (h : InHomeInterval x) :
    (if Scalar.le Scalar.one (x - Scalar.floor x) then Scalar.zero else x - Scalar.floor x) = x := by
  have hfl : floor x = 0 := floor_eq_zero_of_lt_one h.isFinite h.hasPositiveSign h.value_lt_one
  show (if Scalar.le (1 : Float) (x - floor x) then 0 else x - floor x) = x
  rw [hfl, sub_zero_eq, scalar_le_float, if_neg]
  intro hge
  have hle := value_le_of_le isFinite_one h.isFinite (of_decide_eq_true hge)
  rw [value_one] at hle
  linarith [h.value_lt_one]

end Coordinate

theorem sub_wrap_rat (f : Vec3 ℚ) : f.sub (wrap f) = f.floor := by
  rw [wrap_eq_sub_floor]
  ext <;> simp [Vec3.sub]

/-- `wrap` lands in the home cell: in binary64 every wrapped coordinate lies in `[0, 1)` and
wrapping is idempotent; over the rationals an integer shift does not change the wrapped point. -/
theorem wrap_lands_in_home_cell :
    (∀ f : Vec3 Float, (∀ j, (f.get j).isFinite = true) →
        (∀ j, InHomeInterval ((wrap f).get j)) ∧ wrap (wrap f) = wrap f) ∧
      ∀ f : Vec3 ℚ, (f.sub (wrap f)).IsIntegral ∧
        ∀ n : Vec3 ℚ, n.IsIntegral → wrap (f.add n) = wrap f := by
  refine ⟨fun f hf => ?_, fun f => ⟨?_, fun n hn => wrap_add_of_isIntegral f hn⟩⟩
  · -- binary64, one coordinate at a time
    have hhome : ∀ j, InHomeInterval ((wrap f).get j) := fun j => by
      rw [get_wrap]
      exact inHomeInterval_wrapCoordinate (hf j)
    have hfix : ∀ j, (wrap (wrap f)).get j = (wrap f).get j := fun j => by
      rw [get_wrap (wrap f)]
      exact wrapCoordinate_of_inHomeInterval (hhome j)
    exact ⟨hhome, Vec3.ext (hfix 0) (hfix 1) (hfix 2)⟩
  · rw [sub_wrap_rat]
    exact floor_isIntegral f

/-- A point whose first coordinate, `-1e-17`, less its floor rounds up to one and is folded. -/
theorem tinyNegative_wrap_lands_in_home_cell :
    (∀ j, ((⟨-1e-17, 0.25, 3.5⟩ : Vec3 Float).get j).isFinite = true) ∧
      (∀ j, InHomeInterval ((wrap (⟨-1e-17, 0.25, 3.5⟩ : Vec3 Float)).get j)) ∧
        wrap (wrap (⟨-1e-17, 0.25, 3.5⟩ : Vec3 Float)) = wrap ⟨-1e-17, 0.25, 3.5⟩ :=
  have hfin : ∀ j, ((⟨-1e-17, 0.25, 3.5⟩ : Vec3 Float).get j).isFinite = true := by decide
  ⟨hfin, wrap_lands_in_home_cell.1 _ hfin⟩

example : wrap (⟨-1e-17, 0.25, 3.5⟩ : Vec3 Float) = ⟨0, 0.25, 0.5⟩ := by
  rfl

end CrystalLattice
