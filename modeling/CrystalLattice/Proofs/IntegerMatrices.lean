import CrystalLattice.Proofs.Binary64Integers
import CrystalLattice.Proofs.MatrixView

/-!
# Float matrices of integers

With integer entries at most `B` and `6 B³ < 2 ^ 53`, every intermediate result of the inverse
and of the products with it stays below `2 ^ 53`, so the binary64 kernels compute the exact
results and the inverse is two-sided (`inverse_two_sided`).
-/

namespace CrystalLattice

open Binary64

namespace Mat3

/-- Every entry of the float matrix `m` holds the corresponding entry of `A`, an integer of
magnitude at most `B`. -/
def HoldsInts (m : Mat3 Float) (A : Mat3 ℚ) (B : ℤ) : Prop :=
  ∀ i j, ∃ n : ℤ, A.get i j = n ∧ HoldsIntLe (m.get i j) n B

/-- Every entry of the float matrix `m` is `Float.ofInt` of the corresponding entry of `A`, an
integer of magnitude at most `B`. -/
def OfInts (m : Mat3 Float) (A : Mat3 ℚ) (B : ℤ) : Prop :=
  ∀ i j, ∃ n : ℤ, A.get i j = n ∧ |n| ≤ B ∧ m.get i j = Float.ofInt n

variable {m m' : Mat3 Float} {A A' : Mat3 ℚ} {B B' : ℤ}

theorem OfInts.eq (h : m.OfInts A B) (h' : m'.OfInts A B') : m = m' := by
  refine eq_of_get_eq fun i j => ?_
  obtain ⟨n, hA, -, hm⟩ := h i j
  obtain ⟨n', hA', -, hm'⟩ := h' i j
  have hn : n = n' := by exact_mod_cast hA.symm.trans hA'
  rw [hm, hm', hn]

theorem identity_ofInts : (identity : Mat3 Float).OfInts identity 1 := by
  intro i j
  fin_cases i <;> fin_cases j
  all_goals first
    | exact ⟨1, by simp [identity, get_def], by norm_num, rfl⟩
    | exact ⟨0, by simp [identity, get_def], by norm_num, rfl⟩

theorem validateFinite_eq_ok {α : Type} [Scalar α] {m : Mat3 α}
    (h : ∀ i j, Scalar.isFinite (m.get i j) = true) : m.validateFinite = .ok () := by
  have hrow : ∀ i, (m.row i).findIdx? Scalar.isFinite = none := fun i => by
    simp [Vec3.findIdx?, show Scalar.isFinite (m.row i).x = true from h i 0,
      show Scalar.isFinite (m.row i).y = true from h i 1,
      show Scalar.isFinite (m.row i).z = true from h i 2]
  simp [Mat3.validateFinite, findIdx?, ← row_zero, ← row_one, ← row_two, hrow]

theorem HoldsInts.validateFinite (h : m.HoldsInts A B) : m.validateFinite = .ok () :=
  validateFinite_eq_ok fun i j => by
    obtain ⟨n, -, hn⟩ := h i j
    exact hn.holds.isFinite

theorem get_mapRows_map {α β : Type} (f : α → β) (m : Mat3 α) (i j : Fin 3) :
    (m.mapRows (Vec3.map f)).get i j = f (m.get i j) := by
  fin_cases i <;> fin_cases j <;> rfl

theorem holdsIntLe_cofactor {x y z w : Float} {a b c d : ℤ} (hx : HoldsIntLe x a B)
    (hy : HoldsIntLe y b B) (hz : HoldsIntLe z c B) (hw : HoldsIntLe w d B)
    (h : B * B + B * B < 2 ^ 53) : HoldsIntLe (x * y - z * w) (a * b - c * d) (B * B + B * B) := by
  have hBB : 0 ≤ B * B := mul_self_nonneg B
  exact (hx.mul hy (by omega)).sub (hz.mul hw (by omega)) h

theorem cofactor_bound_lt {B : ℤ} (hB₀ : 0 ≤ B) (hB : 6 * B ^ 3 < 2 ^ 53) :
    B * B + B * B < 2 ^ 53 := by
  have hsq : B * B ≤ B ^ 3 := by
    rcases hB₀.eq_or_lt with rfl | hpos
    · simp
    · have h1 : 1 ≤ B := hpos
      nlinarith [mul_nonneg (mul_nonneg hB₀ hB₀) (sub_nonneg.mpr h1)]
  linarith [pow_nonneg hB₀ 3]

/-- The determinant of a float matrix of integers at most `B`, with `6 B³ < 2 ^ 53`, is exact:
each cofactor stays below `2 B²` and each term of the expansion below `2 B³`. -/
theorem HoldsInts.det (h : m.HoldsInts A B) (hB : 6 * B ^ 3 < 2 ^ 53) :
    ∃ d : ℤ, A.det = d ∧ HoldsIntLe m.det d (6 * B ^ 3) := by
  choose n hA hn using h
  have hB₀ : 0 ≤ B := (hn 0 0).nonneg
  have hcof := cofactor_bound_lt hB₀ hB
  have hterm : B * (B * B + B * B) = 2 * B ^ 3 := by ring
  have hcube := pow_nonneg hB₀ 3
  refine ⟨n 0 0 * (n 1 1 * n 2 2 - n 1 2 * n 2 1) - n 0 1 * (n 1 0 * n 2 2 - n 1 2 * n 2 0) +
    n 0 2 * (n 1 0 * n 2 1 - n 1 1 * n 2 0), ?_, ?_⟩
  · simp only [Mat3.det, hA]
    push_cast
    ring
  · have t₀ := (hn 0 0).mul (holdsIntLe_cofactor (hn 1 1) (hn 2 2) (hn 1 2) (hn 2 1) hcof)
      (by rw [hterm]; linarith)
    have t₁ := (hn 0 1).mul (holdsIntLe_cofactor (hn 1 0) (hn 2 2) (hn 1 2) (hn 2 0) hcof)
      (by rw [hterm]; linarith)
    have t₂ := (hn 0 2).mul (holdsIntLe_cofactor (hn 1 0) (hn 2 1) (hn 1 1) (hn 2 0) hcof)
      (by rw [hterm]; linarith)
    rw [hterm] at t₀ t₁ t₂
    exact ((t₀.sub t₁ (by linarith)).add t₂ (by linarith)).mono (by linarith)

/-- The adjugate of a float matrix of integers at most `B` is exact while its cofactors stay
below `2 ^ 53`. -/
theorem HoldsInts.adjugate (h : m.HoldsInts A B) (hB : B * B + B * B < 2 ^ 53) :
    m.adjugate.HoldsInts A.adjugate (B * B + B * B) := by
  choose n hA hn using h
  obtain rfl : A = ofFn fun i j => (n i j : ℚ) :=
    eq_of_get_eq fun i j => by rw [hA, get_def, row_ofFn, Vec3.get_ofFn]
  intro i j
  fin_cases i <;> fin_cases j
  all_goals
    refine ⟨_, ?_, holdsIntLe_cofactor (hn _ _) (hn _ _) (hn _ _) (hn _ _) hB⟩
    push_cast
    rfl

theorem HoldsInts.divUnit (h : m.HoldsInts A B) {d : ℤ} (hd : d = 1 ∨ d = -1) :
    (m.mapRows (Vec3.map (· / Float.ofInt d))).HoldsInts (A.mapRows (Vec3.map (· / (d : ℚ)))) B := by
  intro i j
  obtain ⟨n, hA, hn⟩ := h i j
  have habs : |n * d| = |n| := by rcases hd with rfl | rfl <;> simp
  refine ⟨n * d, ?_, ?_⟩
  · rw [get_mapRows_map, hA]
    rcases hd with rfl | rfl <;> simp [div_neg]
  · rw [get_mapRows_map]
    exact ⟨hn.holds.div_ofInt hd, habs ▸ hn.abs_le⟩

theorem HoldsInts.round (h : m.HoldsInts A B) : m.round.OfInts A B := by
  intro i j
  obtain ⟨n, hA, hn⟩ := h i j
  refine ⟨n, hA, hn.abs_le, ?_⟩
  rw [get_round]
  change roundHalfEven (m.get i j) + Float.ofInt 0 = _
  rw [roundHalfEven_of_holdsInt hn.holds, add_ofInt hn.holds (by norm_num)
    (by rw [add_zero]; exact hn.holds.1), add_zero]

/-- A sum `0 + x + y + z` of floats that hold integers at most `C`, with `3 * C` below `2 ^ 53`,
is the float of the exact sum. -/
theorem zero_add_add_add_eq_ofInt {x y z : Float} {a b c C : ℤ} (hx : HoldsIntLe x a C)
    (hy : HoldsIntLe y b C) (hz : HoldsIntLe z c C) (hC : 3 * C < 2 ^ 53) :
    Float.ofInt 0 + x + y + z = Float.ofInt (a + b + c) := by
  have hC₀ := hx.nonneg
  have ha := hx.abs_le
  have hb := hy.abs_le
  have hc := hz.abs_le
  have hab : |a + b| ≤ C + C := (abs_add_le a b).trans (add_le_add ha hb)
  have habc : |a + b + c| ≤ C + C + C := (abs_add_le _ c).trans (add_le_add hab hc)
  rw [ofInt_add hx.holds (by norm_num) (by rw [zero_add]; exact hx.holds.1), zero_add,
    ofInt_add hy.holds (ha.trans_lt (by omega)) (hab.trans_lt (by omega)),
    ofInt_add hz.holds (hab.trans_lt (by omega)) (habc.trans_lt (by omega))]

/-- The product of float matrices of integers is exact while every entry's three products and
their sum stay below `2 ^ 53`. -/
theorem HoldsInts.mul {Ba Bb : ℤ} (ha : m.HoldsInts A Ba) (hb : m'.HoldsInts A' Bb)
    (h : 3 * (Ba * Bb) < 2 ^ 53) : (m.mul m').OfInts (A.mul A') (3 * (Ba * Bb)) := by
  intro i j
  choose a hA ha using ha
  choose b hB hb using hb
  have hBB : 0 ≤ Ba * Bb := mul_nonneg (ha 0 0).nonneg (hb 0 0).nonneg
  have hp : ∀ k, HoldsIntLe (m.get i k * m'.get k j) (a i k * b k j) (Ba * Bb) :=
    fun k => (ha i k).mul (hb k j) (by omega)
  refine ⟨a i 0 * b 0 j + a i 1 * b 1 j + a i 2 * b 2 j, ?_, ?_, ?_⟩
  · rw [get_mul, hA, hA, hA, hB, hB, hB]
    push_cast
    ring
  · have h0 := (hp 0).abs_le
    have h1 := (hp 1).abs_le
    have h2 := (hp 2).abs_le
    calc |a i 0 * b 0 j + a i 1 * b 1 j + a i 2 * b 2 j|
        ≤ |a i 0 * b 0 j| + |a i 1 * b 1 j| + |a i 2 * b 2 j| := abs_add_three _ _ _
      _ ≤ 3 * (Ba * Bb) := by omega
  · simp only [Mat3.mul, get_def, row_ofFn, Vec3.get_ofFn, mulEntry]
    exact zero_add_add_add_eq_ofInt (hp 0) (hp 1) (hp 2) h

/-- A float matrix of integers at most `B`, with `6 B³ < 2 ^ 53`, whose determinant evaluates to
`±1` has as inverse its adjugate divided by the determinant, computed exactly, and the exact
determinant is the same `±1`. -/
theorem HoldsInts.inverse_eq (h : m.HoldsInts A B) (hB : 6 * B ^ 3 < 2 ^ 53)
    (hdet : m.det = 1 ∨ m.det = -1) :
    ∃ d : ℤ, (d = 1 ∨ d = -1) ∧ A.det = d ∧ m.det = Float.ofInt d ∧
      m.inverse = .ok (m.adjugate.mapRows (Vec3.map (· / Float.ofInt d))) := by
  obtain ⟨d, hAd, hdl⟩ := h.det hB
  have hunit : ∀ u : ℤ, (u = 1 ∨ u = -1) → m.det = Float.ofInt u → d = u := by
    intro u hu hmu
    have hvalue := hdl.holds.value_eq
    rw [hmu, (holdsInt_ofInt (by rcases hu with rfl | rfl <;> norm_num)).value_eq] at hvalue
    exact_mod_cast hvalue.symm
  have hd : d = 1 ∨ d = -1 := by
    rcases hdet with h₁ | h₁
    · exact .inl (hunit 1 (.inl rfl) h₁)
    · exact .inr (hunit (-1) (.inr rfl) h₁)
  have hmd : m.det = Float.ofInt d := hdl.holds.eq_ofInt (by rcases hd with rfl | rfl <;> decide)
  have hne : Scalar.eq (Float.ofInt d) Scalar.zero = false := by
    rcases hd with rfl | rfl <;> decide
  have hB₀ : 0 ≤ B := (h 0 0).elim fun _ hn => hn.2.nonneg
  refine ⟨d, hd, hAd, hmd, ?_⟩
  simp only [inverse, h.validateFinite, hmd, hne,
    ((h.adjugate (cofactor_bound_lt hB₀ hB)).divUnit hd).validateFinite]
  rfl

/-- With entries at most `B` and `6 B³ < 2 ^ 53`, a float matrix of integers whose determinant
evaluates to `±1` has an inverse of integers at most `2 B²` that is exactly the rational inverse,
and both products with it are the identity bit for bit. -/
theorem HoldsInts.exact_inverse (h : m.HoldsInts A B) (hB : 6 * B ^ 3 < 2 ^ 53)
    (hdet : m.det = 1 ∨ m.det = -1) :
    ∃ inv A', m.inverse = .ok inv ∧ inv.HoldsInts A' (B * B + B * B) ∧
      A.mul A' = identity ∧ A'.mul A = identity ∧ m.mul inv = identity ∧
      inv.mul m = identity := by
  obtain ⟨d, hd, hAd, -, hinv⟩ := h.inverse_eq hB hdet
  have hB₀ : 0 ≤ B := (h 0 0).elim fun _ hn => hn.2.nonneg
  have hcof := cofactor_bound_lt hB₀ hB
  have hA' := (h.adjugate hcof).divUnit hd
  have hAdet : A.det ≠ 0 := by
    rw [hAd]
    rcases hd with rfl | rfl <;> norm_num
  obtain ⟨hright, hleft⟩ := mul_div_det hAdet
  rw [hAd] at hright hleft
  have hprod : 3 * (B * (B * B + B * B)) < 2 ^ 53 := by linarith
  have hprod' : 3 * ((B * B + B * B) * B) < 2 ^ 53 := by linarith
  have hmi := h.mul hA' hprod
  have him := hA'.mul h hprod'
  rw [hright] at hmi
  rw [hleft] at him
  exact ⟨_, _, hinv, hA', hright, hleft, hmi.eq identity_ofInts, him.eq identity_ofInts⟩

/-- The inverse is two-sided: over the rationals for every nonzero determinant, and bit for bit in
binary64 for integer entries at most `B` with `6 B³ < 2 ^ 53` and determinant `±1`. -/
theorem inverse_two_sided :
    (∀ m : Mat3 ℚ, m.det ≠ 0 →
      ∃ inv, m.inverse = .ok inv ∧ m.mul inv = identity ∧ inv.mul m = identity) ∧
    (∀ (m : Mat3 Float) (B : ℤ), 6 * B ^ 3 < 2 ^ 53 →
      (∀ i j, ∃ n : ℤ, |n| ≤ B ∧ HoldsInt (m.get i j) n) → (m.det = 1 ∨ m.det = -1) →
      ∃ inv, m.inverse = .ok inv ∧ (∀ i j, ∃ n : ℤ, HoldsInt (inv.get i j) n) ∧
        m.mul inv = identity ∧ inv.mul m = identity) := by
  refine ⟨fun m hdet => ⟨_, inverse_eq_ok hdet, mul_div_det hdet⟩, fun m B hB hm hdet => ?_⟩
  choose n hn hholds using hm
  have hA : m.HoldsInts (ofFn fun i j => (n i j : ℚ)) B := fun i j =>
    ⟨n i j, by rw [get_def, row_ofFn, Vec3.get_ofFn], hholds i j, hn i j⟩
  obtain ⟨inv, A', hinv, hA', -, -, hright, hleft⟩ := hA.exact_inverse hB hdet
  refine ⟨inv, hinv, fun i j => ?_, hright, hleft⟩
  obtain ⟨k, -, hk⟩ := hA' i j
  exact ⟨k, hk.holds⟩

/-- The unimodular matrix `[[1, 2, 0], [0, 1, -3], [1, 2, 1]]`, with entries at most `3`, has
determinant `1` exactly and in binary64. -/
theorem unimodularMatrix_inverse_two_sided :
    let N : Fin 3 → Fin 3 → ℤ := ![![1, 2, 0], ![0, 1, -3], ![1, 2, 1]]
    let q : Mat3 ℚ := ofFn fun i j => (N i j : ℚ)
    let m : Mat3 Float := ofFn fun i j => Float.ofInt (N i j)
    (q.det ≠ 0 ∧ ∃ inv, q.inverse = .ok inv ∧ q.mul inv = identity ∧ inv.mul q = identity) ∧
      (6 * (3 : ℤ) ^ 3 < 2 ^ 53 ∧ (∀ i j, ∃ n : ℤ, |n| ≤ 3 ∧ HoldsInt (m.get i j) n) ∧
        m.det = 1 ∧ ∃ inv, m.inverse = .ok inv ∧ (∀ i j, ∃ n : ℤ, HoldsInt (inv.get i j) n) ∧
          m.mul inv = identity ∧ inv.mul m = identity) := by
  intro N q m
  have hq : q.det = 1 := by
    simp [q, N, det, get_def, ofFn, ofRowFn, Vec3.ofFn]
    norm_num
  have hN : ∀ i j, |N i j| ≤ 3 := by decide
  have hA : m.HoldsInts q 3 := fun i j =>
    ⟨N i j, by rw [get_def, row_ofFn, Vec3.get_ofFn], by
      rw [get_def, row_ofFn, Vec3.get_ofFn]
      exact holdsIntLe_ofInt (hN i j) (by norm_num)⟩
  have hm : ∀ i j, ∃ n : ℤ, |n| ≤ 3 ∧ HoldsInt (m.get i j) n := fun i j =>
    (hA i j).elim fun n hn => ⟨n, hn.2.abs_le, hn.2.holds⟩
  have hdet : m.det = 1 := by
    obtain ⟨d, hqd, hd⟩ := hA.det (by norm_num)
    obtain rfl : d = 1 := by exact_mod_cast hqd.symm.trans hq
    exact hd.holds.eq_ofInt one_ne_zero
  exact ⟨⟨by rw [hq]; norm_num, inverse_two_sided.1 q (by rw [hq]; norm_num)⟩,
    ⟨by norm_num, hm, hdet, inverse_two_sided.2 m 3 (by norm_num) hm (.inl hdet)⟩⟩

end Mat3

end CrystalLattice
