import DocExamples.Proofs.Decimal
import DocExamples.Proofs.Rounding
/-!
The shortest decimal of a double lies in the rounding interval of the double. Seventeen digits are
always enough.
-/
namespace DocExamples.Decimal

open Binary64

variable {mantissa : Nat} {exponent : Int}

/-! ### Grids -/

theorem ten_zpow_pos (e : Int) : (0 : ℚ) < 10 ^ e := zpow_pos (by norm_num) e

theorem gridDen_pos (e u : Int) : 0 < gridDen e u := by
  rw [gridDen, Nat.shiftLeft_eq, Nat.pow_eq]
  positivity

theorem gridNum_eq (e u : Int) (n : Nat) :
    (gridNum e u n : ℚ) = n * 2 ^ u / 10 ^ e * gridDen e u := by
  have two : (2 : ℚ) ^ (-u).toNat ≠ 0 := pow_ne_zero _ (by norm_num)
  have ten : (10 : ℚ) ^ e.toNat ≠ 0 := pow_ne_zero _ (by norm_num)
  have lift : (10 : ℚ) ^ (-e).toNat ≠ 0 := pow_ne_zero _ (by norm_num)
  rw [gridNum, gridDen, Nat.shiftLeft_eq, Nat.shiftLeft_eq, Nat.pow_eq, Nat.pow_eq,
    zpow_eq_div 2 (by norm_num) u, zpow_eq_div 10 (by norm_num) e]
  push_cast
  field_simp

/-- Grid points compare as the numbers that they stand for. -/
theorem gridNum_le_iff {e u : Int} {n k : Nat} :
    gridNum e u n ≤ k * gridDen e u ↔ (n : ℚ) * 2 ^ u ≤ k * 10 ^ e := by
  have den : (0 : ℚ) < gridDen e u := by exact_mod_cast gridDen_pos e u
  rw [← div_le_iff₀ (ten_zpow_pos e), ← mul_le_mul_iff_left₀ den, ← gridNum_eq]
  exact_mod_cast Iff.rfl

theorem le_gridNum_iff {e u : Int} {n k : Nat} :
    k * gridDen e u ≤ gridNum e u n ↔ (k : ℚ) * 10 ^ e ≤ n * 2 ^ u := by
  have den : (0 : ℚ) < gridDen e u := by exact_mod_cast gridDen_pos e u
  rw [← le_div_iff₀ (ten_zpow_pos e), ← mul_le_mul_iff_left₀ den, ← gridNum_eq]
  exact_mod_cast Iff.rfl

theorem gridNum_lt_iff {e u : Int} {n k : Nat} :
    gridNum e u n < k * gridDen e u ↔ (n : ℚ) * 2 ^ u < k * 10 ^ e := by
  rw [← not_le, le_gridNum_iff, not_le]

theorem lt_gridNum_iff {e u : Int} {n k : Nat} :
    k * gridDen e u < gridNum e u n ↔ (k : ℚ) * 10 ^ e < n * 2 ^ u := by
  rw [← not_le, gridNum_le_iff, not_le]

theorem gridNum_eq_iff {e u : Int} {n k : Nat} :
    gridNum e u n = k * gridDen e u ↔ (n : ℚ) * 2 ^ u = k * 10 ^ e := by
  rw [le_antisymm_iff, le_antisymm_iff, gridNum_le_iff, le_gridNum_iff]

theorem eq_gridNum_iff {e u : Int} {n k : Nat} :
    k * gridDen e u = gridNum e u n ↔ (k : ℚ) * 10 ^ e = n * 2 ^ u := by
  rw [eq_comm, gridNum_eq_iff, eq_comm]

/-- The grid points around a number. -/
theorem grid_around (e u : Int) (n : Nat) :
    ((gridNum e u n / gridDen e u : Nat) : ℚ) * 10 ^ e ≤ n * 2 ^ u ∧
      (n : ℚ) * 2 ^ u < ((gridNum e u n / gridDen e u + 1 : Nat) : ℚ) * 10 ^ e := by
  constructor
  · exact le_gridNum_iff.mp (Nat.div_mul_le_self _ _)
  · refine gridNum_lt_iff.mp ?_
    rw [Nat.mul_comm]
    exact Nat.lt_mul_div_succ _ (gridDen_pos e u)

/-! ### Points of an interval -/

/-- A point of the grid in the interval, if one is found. -/
theorem contains_of_onGrid? {i : RoundingInterval} (below : i.low < i.value)
    (above : i.value < i.high) {e : Int} {n : Nat} (found : i.onGrid? e = some n) :
    i.Contains (n * 10 ^ e) := by
  have unit := two_zpow_pos i.unit
  have lowValue : (i.low : ℚ) * 2 ^ i.unit < i.value * 2 ^ i.unit :=
    mul_lt_mul_of_pos_right (by exact_mod_cast below) unit
  have valueHigh : (i.value : ℚ) * 2 ^ i.unit < i.high * 2 ^ i.unit :=
    mul_lt_mul_of_pos_right (by exact_mod_cast above) unit
  obtain ⟨pointBelow, pointAbove⟩ := grid_around e i.unit i.value
  unfold RoundingInterval.onGrid? at found
  dsimp only at found
  generalize gridNum e i.unit i.value / gridDen e i.unit = k at pointBelow pointAbove found
  have atLower (holds : (decide (gridNum e i.unit i.low < k * gridDen e i.unit) ||
      i.closed && gridNum e i.unit i.low == k * gridDen e i.unit) = true) :
      i.Contains (k * 10 ^ e) := by
    refine ⟨?_, .inl (by linarith)⟩
    rw [← gridNum_lt_iff, ← gridNum_eq_iff]
    simpa using holds
  have atUpper (holds : (decide ((k + 1) * gridDen e i.unit < gridNum e i.unit i.high) ||
      i.closed && (k + 1) * gridDen e i.unit == gridNum e i.unit i.high) = true) :
      i.Contains ((k + 1 : Nat) * 10 ^ e) := by
    refine ⟨.inl (by linarith), ?_⟩
    rw [← lt_gridNum_iff, ← eq_gridNum_iff]
    simpa using holds
  split at found
  · next both =>
    obtain ⟨first, second⟩ := Bool.and_eq_true_iff.mp both
    split at found
    · cases found
      exact atUpper second
    · cases found
      exact atLower first
  · split at found
    · next first =>
      cases found
      exact atLower first
    · split at found
      · next second =>
        cases found
        exact atUpper second
      · cases found

/-- An interval that is wider than the grid has a point of it next to its double. -/
theorem onGrid?_isSome {i : RoundingInterval} {e : Int}
    (wide : (10 : ℚ) ^ e < (i.high - i.low) * 2 ^ i.unit) : (i.onGrid? e).isSome = true := by
  unfold RoundingInterval.onGrid?
  dsimp only
  generalize gridNum e i.unit i.value / gridDen e i.unit = k
  split
  · rfl
  · split
    · rfl
    · next noLower =>
      split
      · rfl
      · next noUpper =>
        simp only [Bool.or_eq_true, decide_eq_true_eq, not_or, Nat.not_lt] at noLower noUpper
        have low := le_gridNum_iff.mp noLower.1
        have high := gridNum_le_iff.mp noUpper.1
        push_cast at high
        linarith

/-! ### The leading digit -/

theorem two_pow_le_ten_pow {b d : Nat} (le : b ≤ 3 * d) : 2 ^ b ≤ 10 ^ d :=
  calc 2 ^ b ≤ 2 ^ (3 * d) := Nat.pow_le_pow_right (by decide) le
    _ = 8 ^ d := by rw [Nat.pow_mul]
    _ ≤ 10 ^ d := Nat.pow_le_pow_left (by decide) d

theorem ten_pow_le_two_pow {b d : Nat} (le : 10 * d ≤ 3 * b) : 10 ^ d ≤ 2 ^ b := by
  apply (Nat.pow_le_pow_iff_left (n := 10) (by decide)).mp
  calc (10 ^ d) ^ 10 = 10 ^ (10 * d) := by rw [← Nat.pow_mul, Nat.mul_comm]
    _ ≤ 10 ^ (3 * b) := Nat.pow_le_pow_right (by decide) le
    _ = (10 ^ 3) ^ b := by rw [Nat.pow_mul]
    _ ≤ (2 ^ 10) ^ b := Nat.pow_le_pow_left (by decide) b
    _ = (2 ^ b) ^ 10 := by rw [← Nat.pow_mul, ← Nat.pow_mul, Nat.mul_comm]

/-- How far `place` moves the point to the right, so that a number is not less than its mantissa. -/
def lift (exponent : Int) : Int := if exponent < 0 then (2 - exponent) / 3 else -(3 * exponent / 10)

theorem ten_zpow_le_two_zpow (exponent : Int) : (10 : ℚ) ^ (-lift exponent) ≤ 2 ^ exponent := by
  unfold lift
  split
  · next negative =>
    obtain ⟨b, rfl⟩ : ∃ b : Nat, exponent = -(b : Int) := ⟨(-exponent).toNat, by omega⟩
    obtain ⟨d, same⟩ : ∃ d : Nat, (2 - -(b : Int)) / 3 = d :=
      ⟨((2 - -(b : Int)) / 3).toNat, by omega⟩
    have le : (2 : ℚ) ^ b ≤ 10 ^ d := by exact_mod_cast two_pow_le_ten_pow (by omega)
    rw [same, zpow_neg, zpow_neg, zpow_natCast, zpow_natCast]
    exact inv_anti₀ (by positivity) le
  · next nonnegative =>
    obtain ⟨b, rfl⟩ : ∃ b : Nat, exponent = b := ⟨exponent.toNat, by omega⟩
    obtain ⟨d, same⟩ : ∃ d : Nat, 3 * (b : Int) / 10 = d := ⟨(3 * (b : Int) / 10).toNat, by omega⟩
    have le : (10 : ℚ) ^ d ≤ 2 ^ b := by exact_mod_cast ten_pow_le_two_pow (by omega)
    rw [same, neg_neg, zpow_natCast, zpow_natCast]
    exact le

theorem ten_pow_length_le {n : Nat} (positive : 0 < n) : 10 ^ ((toString n).length - 1) ≤ n := by
  rw [Nat.toString_eq_repr]
  by_cases single : n.repr.length - 1 = 0
  · rw [single]
    exact positive
  · by_contra less
    have short := (Nat.length_repr_le_iff (Nat.pos_of_ne_zero single)).mpr (Nat.not_le.mp less)
    omega

/-- The leading digit of a number stands at its place. -/
theorem ten_zpow_place_le (positive : 0 < mantissa) :
    (10 : ℚ) ^ (place mantissa exponent - 1) ≤ mantissa * 2 ^ exponent := by
  have ten : (10 : ℚ) ≠ 0 := by norm_num
  have one : (1 : ℚ) ≤ mantissa := by exact_mod_cast positive
  have lifted : ((1 : Nat) : ℚ) * 10 ^ (-lift exponent) ≤ mantissa * 2 ^ exponent := by
    rw [Nat.cast_one]
    exact mul_le_mul one (ten_zpow_le_two_zpow exponent) (ten_zpow_pos _).le (by linarith)
  have whole : 0 < gridNum (-lift exponent) exponent mantissa / gridDen (-lift exponent) exponent := by
    rw [Nat.div_pos_iff]
    have le := le_gridNum_iff.mpr lifted
    rw [Nat.one_mul] at le
    exact ⟨gridDen_pos _ _, le⟩
  have length := ten_pow_length_le whole
  have below := (grid_around (-lift exponent) exponent mantissa).1
  have isPlace : place mantissa exponent = ((toString (gridNum (-lift exponent) exponent mantissa /
      gridDen (-lift exponent) exponent)).length : Int) - lift exponent := rfl
  rw [isPlace]
  generalize gridNum (-lift exponent) exponent mantissa / gridDen (-lift exponent) exponent = n at *
  have some : 0 < (toString n).length := by
    rw [Nat.toString_eq_repr]
    exact Nat.length_repr_pos
  have cast : (10 : ℚ) ^ ((toString n).length - 1) ≤ n := by exact_mod_cast length
  have split : ((toString n).length : Int) - lift exponent - 1 =
      (((toString n).length - 1 : Nat) : Int) + -lift exponent := by omega
  calc (10 : ℚ) ^ (((toString n).length : Int) - lift exponent - 1)
      = 10 ^ ((toString n).length - 1) * 10 ^ (-lift exponent) := by
        rw [split, zpow_add₀ ten, zpow_natCast]
    _ ≤ n * 10 ^ (-lift exponent) := mul_le_mul_of_nonneg_right cast (ten_zpow_pos _).le
    _ ≤ mantissa * 2 ^ exponent := below

/-! ### Seventeen digits -/

/-- The grid of seventeen digits is finer than the interval of a double. -/
theorem seventeen_suffice (finite : IsFinite mantissa exponent) (positive : 0 < mantissa) :
    (10 : ℚ) ^ (place mantissa exponent - 17) <
      ((roundingInterval mantissa exponent).high - (roundingInterval mantissa exponent).low) *
        2 ^ (roundingInterval mantissa exponent).unit := by
  have unit := two_zpow_pos exponent
  have digits : (10 : ℚ) ^ (place mantissa exponent - 17) * 10 ^ 16 ≤ mantissa * 2 ^ exponent := by
    refine le_of_eq_of_le ?_ (ten_zpow_place_le positive)
    rw [← zpow_natCast, ← zpow_add₀ (by norm_num)]
    congr 1
    push_cast
    ring
  have width : ((roundingInterval mantissa exponent).high -
      (roundingInterval mantissa exponent).low : ℚ) *
        2 ^ (roundingInterval mantissa exponent).unit =
      (1 / 2 + reachBelow mantissa exponent) * 2 ^ exponent := by
    rw [sub_mul]
    change _ * 2 ^ (exponent - 2) - _ * 2 ^ (exponent - 2) = _
    rw [high_mul, low_mul positive]
    ring
  rw [width, reachBelow]
  split
  · next boundary =>
    have power : (mantissa : ℚ) = 2 ^ 52 := by exact_mod_cast boundary.1
    rw [power] at digits
    linarith
  · have most : (mantissa : ℚ) + 1 ≤ 2 ^ 53 := by
      have below := finite.mantissa_lt
      rw [leadingBit] at below
      exact_mod_cast below
    have bound : (mantissa : ℚ) * 2 ^ exponent ≤ (2 ^ 53 - 1) * 2 ^ exponent :=
      mul_le_mul_of_nonneg_right (by linarith) unit.le
    linarith

/-- The shortest decimal of a double rounds to the double. -/
theorem contains_shortest (finite : IsFinite mantissa exponent) (positive : 0 < mantissa) :
    (roundingInterval mantissa exponent).Contains
      ((shortest mantissa exponent).coefficient * 10 ^ (shortest mantissa exponent).exponent) := by
  have below : (roundingInterval mantissa exponent).low < (roundingInterval mantissa exponent).value := by
    simp only [roundingInterval]
    split <;> omega
  have above : (roundingInterval mantissa exponent).value < (roundingInterval mantissa exponent).high := by
    simp only [roundingInterval]
    omega
  have last := onGrid?_isSome (seventeen_suffice finite positive)
  unfold shortest
  dsimp only
  cases found : (List.range 17).findSome? fun (n : Nat) =>
      ((roundingInterval mantissa exponent).onGrid? (place mantissa exponent - (n + 1))).map
        fun c => (⟨c, place mantissa exponent - (n + 1)⟩ : Decimal) with
  | none =>
    have missing := List.findSome?_eq_none_iff.mp found 16 (by decide)
    rw [Option.map_eq_none_iff] at missing
    rw [show place mantissa exponent - (((16 : Nat) : Int) + 1) = place mantissa exponent - 17 by
      norm_num] at missing
    rw [missing] at last
    cases last
  | some d =>
    obtain ⟨n, -, isFound⟩ := List.exists_of_findSome?_eq_some found
    obtain ⟨c, onGrid, rfl⟩ := Option.map_eq_some_iff.mp isFound
    exact contains_of_onGrid? below above onGrid

end DocExamples.Decimal
