import DocExamples.Proofs.WholeDoubles
/-!
Arithmetic on doubles that needs no rounding: conversion to integers of sixty-four bits and back,
sums of integers, and scaling by one.
-/
namespace DocExamples.Binary64

open Float.Model UnpackedFloat

variable {x y x' y' : Float} {u v u' v' : UnpackedFloat} {i j : Int}

/-! ### Comparisons -/

/-- How two doubles compare; there is no order with what is not a number. -/
def ordering? (x y : Float) : Option Ordering := x.toModel.unpack.compare y.toModel.unpack

theorem beq_eq (x y : Float) : (x == y) = (ordering? x y == some .eq) := rfl

theorem lt_iff : x < y ↔ ordering? x y = some .lt := by
  change decide (_ : Prop) = true ↔ _
  rw [decide_eq_true_iff]
  change (_ == _) = true ↔ _
  rw [beq_iff_eq]
  rfl

theorem le_iff : x ≤ y ↔ (ordering? x y).any (·.isLE) = true := by
  change decide (_ : Prop) = true ↔ _
  rw [decide_eq_true_iff]
  rfl

/-- The sign of a zero makes no difference. -/
theorem compare_zero (s s' : Sign) (u : UnpackedFloat) :
    UnpackedFloat.compare (.zero s) u = UnpackedFloat.compare (.zero s') u ∧
      UnpackedFloat.compare u (.zero s) = UnpackedFloat.compare u (.zero s') := by
  cases u with
  | notANumber | zero => exact ⟨rfl, rfl⟩
  | infinity t | finite t => cases t <;> exact ⟨rfl, rfl⟩

/-- Equal doubles compare in the same way with every other one. -/
theorem ordering_congr (same : (x == y) = true) (z : Float) :
    ordering? x z = ordering? y z ∧ ordering? z x = ordering? z y := by
  obtain ⟨-, -, rfl | ⟨rfl, rfl⟩ | ⟨rfl, rfl⟩⟩ := Float.beq_iff_ne_nan_and_eq.mp same
  · exact ⟨rfl, rfl⟩
  · exact compare_zero .positive .negative _
  · exact compare_zero .negative .positive _

theorem compare_swap (u v : UnpackedFloat) :
    UnpackedFloat.compare v u = (UnpackedFloat.compare u v).map Ordering.swap := by
  have magnitudes (e f : Int) (m n : Nat) :
      ((compare e f).then (compare m n)).swap = (compare f e).then (compare n m) := by
    rw [Ordering.swap_then, Int.compare_swap, Nat.compare_swap]
  cases u with
  | notANumber => cases v <;> rfl
  | infinity s =>
    cases v with
    | notANumber => rfl
    | infinity t => cases s <;> cases t <;> rfl
    | zero | finite => cases s <;> rfl
  | zero s =>
    cases v with
    | notANumber | zero => rfl
    | infinity t | finite t => cases t <;> rfl
  | finite s m e =>
    cases v with
    | notANumber => rfl
    | infinity t => cases t <;> rfl
    | zero => cases s <;> rfl
    | finite t n f =>
      cases s <;> cases t
      · exact congrArg (some ·.swap) (magnitudes e f m n).symm
      · rfl
      · rfl
      · exact congrArg some (magnitudes e f m n).symm

theorem ordering_swap (x y : Float) : ordering? y x = (ordering? x y).map Ordering.swap :=
  compare_swap _ _

theorem beq_self_of_isFinite (finite : x.isFinite = true) : (x == x) = true := by
  rw [Float.beq_self_iff]
  rintro rfl
  exact absurd finite (by decide)

/-! ### Integers -/

/-- The integer that an unpacked double stands for exactly. -/
def Represents (i : Int) : UnpackedFloat → Prop
  | .zero _ => i = 0
  | .finite sign mantissa exponent _ =>
    sign.apply mantissa * 2 ^ exponent.toNat = i * 2 ^ (-exponent).toNat
  | _ => False

theorem unpack_of_parts {negative : Bool} {mantissa : Nat} {exponent : Int} (some : mantissa ≠ 0)
    (same : parts x = .finite negative mantissa exponent) :
    ∃ sign positive, isNegative sign = negative ∧
      x.toModel.unpack = .finite sign mantissa exponent positive := by
  rw [parts_eq] at same
  cases unpacked : x.toModel.unpack with
  | notANumber | infinity =>
    rw [unpacked] at same
    cases same
  | zero sign =>
    rw [unpacked] at same
    exact absurd (Parts.finite.inj same).2.1.symm some
  | finite sign m e positive =>
    rw [unpacked] at same
    obtain ⟨rfl, rfl, rfl⟩ := Parts.finite.inj same
    exact ⟨sign, positive, rfl, rfl⟩

theorem exists_represents (whole : IsWhole x) : ∃ i, Represents i x.toModel.unpack := by
  obtain ⟨finite, integral⟩ := isWhole_unpack.mp whole
  cases unpacked : x.toModel.unpack with
  | notANumber | infinity =>
    rw [unpacked] at finite
    cases finite
  | zero sign => exact ⟨0, rfl⟩
  | finite sign mantissa exponent positive =>
    rw [unpacked] at integral
    obtain ⟨k, rfl⟩ := integral
    refine ⟨sign.apply k * 2 ^ exponent.toNat, ?_⟩
    have scaled (n : Int) (f : Int) : sign.apply (n * f) = sign.apply n * f := by
      cases sign with
      | positive => rfl
      | negative => exact Int.neg_mul_eq_neg_mul n f |>.symm ▸ rfl
    change sign.apply ((2 ^ (-exponent).toNat * k : Nat) : Int) * _ = _
    rw [Nat.mul_comm, Nat.cast_mul, scaled]
    push_cast
    ring

theorem magnitude_of_represents {sign : Sign} {mantissa : Nat} {exponent : Int}
    {positive : 0 < mantissa} (represents : Represents i (.finite sign mantissa exponent positive)) :
    mantissa * 2 ^ exponent.toNat = i.natAbs * 2 ^ (-exponent).toNat ∧
      (isNegative sign = true ↔ i < 0) := by
  change sign.apply mantissa * 2 ^ exponent.toNat = i * 2 ^ (-exponent).toNat at represents
  have left : (0 : Int) < mantissa * 2 ^ exponent.toNat := by positivity
  have right : (0 : Int) < 2 ^ (-exponent).toNat := by positivity
  constructor
  · have magnitude := congrArg Int.natAbs represents
    rwa [Int.natAbs_mul, Int.natAbs_mul, natAbs_apply, Int.natAbs_pow, Int.natAbs_pow] at magnitude
  · cases sign with
    | positive =>
      refine ⟨fun no => (nomatch no), fun negative => ?_⟩
      have := Int.mul_neg_of_neg_of_pos negative right
      change (mantissa : Int) * _ = _ at represents
      omega
    | negative =>
      refine ⟨fun _ => ?_, fun _ => rfl⟩
      by_contra nonneg
      have := Int.mul_nonneg (Int.not_lt.mp nonneg) right.le
      change -(mantissa : Int) * _ = _ at represents
      rw [Int.neg_mul] at represents
      omega

/-- Conversion to sixty-four bits takes the integer that the double is. -/
theorem toInt64_of_represents (represents : Represents i x.toModel.unpack) :
    toInt64 x = Int64.ofIntClamp i := by
  unfold toInt64
  rw [parts_eq]
  cases unpacked : x.toModel.unpack with
  | notANumber | infinity =>
    rw [unpacked] at represents
    cases represents
  | zero sign =>
    rw [unpacked] at represents
    cases represents
    cases sign <;> rfl
  | finite sign mantissa exponent positive =>
    rw [unpacked] at represents
    obtain ⟨magnitude, negative⟩ := magnitude_of_represents represents
    have whole : mantissa <<< exponent.toNat >>> (-exponent).toNat = i.natAbs := by
      rw [Nat.shiftLeft_eq, magnitude, Nat.shiftRight_eq_div_pow,
        Nat.mul_div_cancel _ (Nat.two_pow_pos _)]
    dsimp only [partsOf]
    rw [whole]
    congr 1
    split
    · next below =>
      have := negative.mp below
      omega
    · next above =>
      have := mt negative.mpr above
      omega

theorem toInt_ofIntClamp (low : -2 ^ 63 ≤ i) (high : i < 2 ^ 63) :
    (Int64.ofIntClamp i).toInt = i :=
  Int64.toInt_ofIntClamp (by change -9223372036854775808 ≤ i; omega)
    (by change i ≤ 9223372036854775807; omega)

/-! ### Order -/

theorem magnitude_eq {sign : Sign} {mantissa : Nat} {exponent : Int}
    {positive : 0 < mantissa} (represents : Represents i (.finite sign mantissa exponent positive)) :
    (i.natAbs : ℚ) = mantissa * 2 ^ exponent := by
  have magnitude := (magnitude_of_represents represents).1
  rw [zpow_eq_div 2 two_ne_zero, mul_div_assoc', eq_div_iff (by positivity)]
  exact_mod_cast magnitude.symm

/-- Mantissas at an exponent end where those with a leading bit begin at the next exponent. -/
theorem top_le_of_lt {n : Nat} {e f : Int} (less : e < f) (leading : leadingBit ≤ n) :
    (2 * leadingBit : ℚ) * 2 ^ e ≤ n * 2 ^ f := by
  have large : (leadingBit : ℚ) ≤ n := by exact_mod_cast leading
  have next : (2 : ℚ) ^ (e + 1) ≤ 2 ^ f := zpow_le_zpow_right₀ (by norm_num) less
  calc
    (2 * leadingBit : ℚ) * 2 ^ e = leadingBit * 2 ^ (e + 1) := by
      rw [zpow_add_one₀ two_ne_zero]
      ring
    _ ≤ n * 2 ^ f := mul_le_mul large next (two_zpow_pos _).le n.cast_nonneg

/-- Magnitudes are ordered by their exponents first. -/
theorem compare_magnitudes {s t : Sign} {m n : Nat} {e f : Int} {p : 0 < m} {q : 0 < n}
    (roundedLeft : IsRounded (.finite s m e p)) (roundedRight : IsRounded (.finite t n f q)) :
    (compare e f).then (compare m n) = compare ((m : ℚ) * 2 ^ e) (n * 2 ^ f) := by
  have below {m n : Nat} {e f : Int} (small : m < 2 * leadingBit) (least : minExponent ≤ e)
      (leading : f ≠ minExponent → leadingBit ≤ n) (less : e < f) :
      (m : ℚ) * 2 ^ e < n * 2 ^ f := by
    have short : (m : ℚ) < 2 * leadingBit := by exact_mod_cast small
    exact (mul_lt_mul_of_pos_right short (two_zpow_pos e)).trans_le
      (top_le_of_lt less (leading (by omega)))
  rcases Int.lt_trichotomy e f with less | rfl | more
  · rw [Int.compare_eq_lt.mpr less]
    exact (compare_lt_iff_lt.mpr
      (below roundedLeft.1 roundedLeft.2.1 roundedRight.2.2 less)).symm
  · have unit := two_zpow_pos e
    rw [Int.compare_eq_eq.mpr rfl]
    change compare m n = _
    rw [← cmp_eq_compare, ← cmp_eq_compare]
    exact ((strictMono_mul_right_of_pos unit).comp Nat.strictMono_cast |>.cmp_map_eq m n).symm
  · rw [Int.compare_eq_gt.mpr more]
    exact (compare_gt_iff_gt.mpr
      (below roundedRight.1 roundedRight.2.1 roundedLeft.2.2 more)).symm

/-- Doubles that are integers are ordered as these. -/
theorem compare_of_represents (roundedLeft : IsRounded u) (roundedRight : IsRounded v)
    (left : Represents i u) (right : Represents j v) :
    UnpackedFloat.compare u v = some (compare i j) := by
  have sign {s : Sign} {m : Nat} {e n : Int} {p : 0 < m} (represents : Represents n (.finite s m e p)) :
      s = .negative ∧ n < 0 ∨ s = .positive ∧ 0 < n := by
    obtain ⟨magnitude, negative⟩ := magnitude_of_represents represents
    have some : n ≠ 0 := by
      rintro rfl
      rw [Int.natAbs_zero, Nat.zero_mul] at magnitude
      exact absurd magnitude (Nat.mul_pos p (Nat.two_pow_pos _)).ne'
    cases s with
    | negative => exact .inl ⟨rfl, negative.mp rfl⟩
    | positive =>
      have := mt negative.mpr Bool.false_ne_true
      exact .inr ⟨rfl, by omega⟩
  have same {a b : Nat} (less : a < b ↔ i < j) (more : b < a ↔ j < i) :
      compare a b = compare i j := by
    rcases Nat.lt_trichotomy a b with lt | eq | gt
    · rw [Nat.compare_eq_lt.mpr lt, Int.compare_eq_lt.mpr (less.mp lt)]
    · rw [Nat.compare_eq_eq.mpr eq, Int.compare_eq_eq.mpr (by omega)]
    · rw [Nat.compare_eq_gt.mpr gt, Int.compare_eq_gt.mpr (more.mp gt)]
  cases u with
  | notANumber | infinity => cases left
  | zero =>
    cases left
    cases v with
    | notANumber | infinity => cases right
    | zero =>
      cases right
      rfl
    | finite t n f q =>
      obtain ⟨rfl, less⟩ | ⟨rfl, more⟩ := sign right
      · exact congrArg some (Int.compare_eq_gt.mpr less).symm
      · exact congrArg some (Int.compare_eq_lt.mpr more).symm
  | finite s m e p =>
    cases v with
    | notANumber | infinity => cases right
    | zero =>
      cases right
      obtain ⟨rfl, less⟩ | ⟨rfl, more⟩ := sign left
      · exact congrArg some (Int.compare_eq_lt.mpr less).symm
      · exact congrArg some (Int.compare_eq_gt.mpr more).symm
    | finite t n f q =>
      have magnitudes : (compare e f).then (compare m n) = compare i.natAbs j.natAbs := by
        rw [compare_magnitudes roundedLeft roundedRight, ← magnitude_eq left, ← magnitude_eq right,
          ← cmp_eq_compare, ← cmp_eq_compare]
        exact Nat.strictMono_cast.cmp_map_eq _ _
      obtain ⟨rfl, less⟩ | ⟨rfl, more⟩ := sign left <;>
        obtain ⟨rfl, less'⟩ | ⟨rfl, more'⟩ := sign right
      · change some ((compare e f).then (compare m n)).swap = _
        rw [magnitudes, Nat.compare_swap, same (by omega) (by omega)]
      · exact congrArg some (Int.compare_eq_lt.mpr (less.trans more')).symm
      · exact congrArg some (Int.compare_eq_gt.mpr (less'.trans more)).symm
      · change some ((compare e f).then (compare m n)) = _
        rw [magnitudes, same (by omega) (by omega)]

theorem ordering_of_represents (left : Represents i x.toModel.unpack)
    (right : Represents j y.toModel.unpack) : ordering? x y = some (compare i j) :=
  compare_of_represents (isRounded_unpack x) (isRounded_unpack y) left right

/-! ### Sixty-four bits -/

/-- A finite double is the one nearest to its own value. -/
theorem nearestBits_self {mantissa k : Nat} {exponent : Int} (finite : IsFinite mantissa exponent)
    (positive : 0 < mantissa) (same : mantissa * 2 ^ exponent.toNat = k * 2 ^ (-exponent).toNat) :
    nearestBits k 1 = bitsFor mantissa exponent := by
  have unit := two_zpow_pos exponent
  have value : (k : ℚ) / (1 : Nat) / 2 ^ exponent = mantissa := by
    rw [Nat.cast_one, div_one, div_eq_iff unit.ne', zpow_eq_div 2 two_ne_zero, mul_div_assoc',
      eq_div_iff (by positivity)]
    exact_mod_cast same.symm
  have some : k ≠ 0 := by
    rintro rfl
    rw [Nat.zero_mul] at same
    exact absurd same (Nat.mul_pos positive (Nat.two_pow_pos _)).ne'
  refine Decimal.nearestBits_eq finite positive some one_ne_zero ?_
  rw [Decimal.contains_iff positive, value]
  refine ⟨.inl ?_, .inl (by linarith)⟩
  have below : 0 < Decimal.reachBelow mantissa exponent := by
    unfold Decimal.reachBelow
    split <;> norm_num
  linarith

/-- The double nearest to an integer that a double is. -/
theorem ofInt_of_represents (represents : Represents i x.toModel.unpack) :
    (ofInt i == x) = true := by
  cases unpacked : x.toModel.unpack with
  | notANumber | infinity =>
    rw [unpacked] at represents
    cases represents
  | zero sign =>
    rw [unpacked] at represents
    cases represents
    rw [beq_eq, ordering?, unpacked]
    cases sign <;> decide +kernel
  | finite sign mantissa exponent positive =>
    rw [unpacked] at represents
    obtain ⟨magnitude, negative⟩ := magnitude_of_represents represents
    have made : parts x = .finite (isNegative sign) mantissa exponent := by
      rw [parts_eq, unpacked]
      rfl
    obtain ⟨finite, back⟩ := of_parts made
    have sameSign : decide (i < 0) = isNegative sign := by
      rw [Bool.eq_iff_iff, decide_eq_true_iff, negative]
    have same : ofInt i = x := by
      rw [← back, ← sameSign, ← nearestBits_self finite positive magnitude]
      rfl
    rw [same]
    exact beq_self_of_isFinite (isFinite_iff.mpr ⟨_, _, _, made⟩)

/-- A number that an integer of sixty-four bits may be. -/
def InWord (x : Float) : Prop := -9223372036854775808.0 ≤ x ∧ x < 9223372036854775808.0

theorem parts_bound : parts 9223372036854775808.0 = .finite false leadingBit 11 := by
  decide +kernel

theorem represents_bound : Represents (2 ^ 63) (9223372036854775808.0 : Float).toModel.unpack := by
  obtain ⟨sign, positive, isPositive, unpacked⟩ := unpack_of_parts (by decide) parts_bound
  rw [unpacked]
  cases sign with
  | positive => rfl
  | negative => cases isPositive

theorem represents_neg (represents : Represents i u) : Represents (-i) u.neg := by
  cases u with
  | notANumber | infinity => cases represents
  | zero =>
    cases represents
    rfl
  | finite sign mantissa exponent positive =>
    rw [UnpackedFloat.neg, Represents] at *
    rw [Int.neg_mul, ← represents]
    cases sign with
    | positive => exact Int.neg_mul ..
    | negative =>
      change (mantissa : Int) * _ = -(-(mantissa : Int) * _)
      rw [Int.neg_mul, Int.neg_neg]

/-- Whole numbers that are not too large keep their value. -/
theorem represents_toInt64 (whole : IsWhole x) (within : InWord x) :
    Represents (toInt64 x).toInt x.toModel.unpack := by
  obtain ⟨i, represents⟩ := exists_represents whole
  obtain ⟨low, high⟩ := within
  have least : Represents (-2 ^ 63) (-9223372036854775808.0 : Float).toModel.unpack := by
    rw [unpack_neg]
    exact represents_neg represents_bound
  rw [le_iff, ordering_of_represents least represents] at low
  rw [lt_iff, ordering_of_represents represents represents_bound] at high
  have low := Int.isLE_compare.mp low
  have high := Int.compare_eq_lt.mp (Option.some.inj high)
  rwa [toInt64_of_represents represents, toInt_ofIntClamp low high]

/-! ### Sums -/

section Sums

variable {k mantissa : Nat} {exponent : Int} {sign : Sign}

theorem represents_assembled (units : exponent ≤ 0) (some : k ≠ 0)
    (same : mantissa = k * 2 ^ (-exponent).toNat) :
    Represents (sign.apply k) (assembled sign mantissa exponent) := by
  have positive : mantissa ≠ 0 := by
    rw [same]
    exact Nat.mul_ne_zero some (Nat.two_pow_pos _).ne'
  rw [assembled, dif_neg positive, Represents, show exponent.toNat = 0 by omega, same]
  cases sign with
  | positive => exact (Int.mul_one _).trans (by push_cast; rfl)
  | negative =>
    change -((k * 2 ^ (-exponent).toNat : Nat) : Int) * 2 ^ 0 = -(k : Int) * _
    push_cast
    ring

/-- An integer of at most fifty-three binary digits is not rounded. -/
theorem represents_roundWithAccuracy (some : k ≠ 0) (small : k < 2 ^ 53) (units : exponent ≤ 0)
    (fits : exponent ≤ targetOf (k * 2 ^ (-exponent).toNat) exponent) :
    Represents (sign.apply k)
      (roundWithAccuracy .binary64 sign (k * 2 ^ (-exponent).toNat) exponent .exact) := by
  have digits : k.log2 < 53 := (Nat.log2_lt some).mpr small
  have below : targetOf (k * 2 ^ (-exponent).toNat) exponent ≤ 0 := by
    rw [targetOf, ← Nat.shiftLeft_eq, log2_shiftLeft some, minExponent]
    omega
  have kept : roundedAt (k * 2 ^ (-exponent).toNat) exponent .exact =
      k * 2 ^ (-targetOf (k * 2 ^ (-exponent).toNat) exponent).toNat := by
    have zeros : k * 2 ^ (-exponent).toNat =
        2 ^ (targetOf (k * 2 ^ (-exponent).toNat) exponent - exponent).toNat *
          (k * 2 ^ (-targetOf (k * 2 ^ (-exponent).toNat) exponent).toNat) := by
      rw [Nat.mul_left_comm, ← Nat.pow_add]
      congr 2
      omega
    have cut := shiftRight_of_dvd (Dvd.intro _ zeros.symm)
    refine (congrArg ExtendedMantissa.roundedMantissa cut).trans ?_
    change k * 2 ^ (-exponent).toNat / _ = _
    rw [Nat.div_eq_iff_eq_mul_right (Nat.two_pow_pos _) (Dvd.intro _ zeros.symm)]
    exact zeros
  rcases roundWithAccuracy_eq sign .exact fits with ⟨result, -⟩ | ⟨carries, result⟩
  · rw [result]
    exact represents_assembled below some kept
  · rw [result]
    rw [carries] at kept
    generalize targetOf (k * 2 ^ (-exponent).toNat) exponent = target at *
    rcases below.eq_or_lt with rfl | less
    · rw [neg_zero, Int.toNat_zero, Nat.pow_zero, Nat.mul_one] at kept
      exact absurd small (Nat.not_lt.mpr (Nat.le_of_eq kept))
    · apply represents_assembled (by omega) some
      rw [show (-target).toNat = (-(target + 1)).toNat + 1 by omega, Nat.pow_succ, ← Nat.mul_assoc,
        Nat.mul_comm 2] at kept
      exact Nat.mul_right_cancel (by decide) kept

theorem represents_normalize {total : Int} (small : total.natAbs < 2 ^ 53) (units : exponent ≤ 0) :
    Represents total
      (UnpackedFloat.normalize .binary64 (total * 2 ^ (-exponent).toNat) exponent sign) := by
  have rounded (sign : Sign) (some : total.natAbs ≠ 0) : Represents (sign.apply total.natAbs)
      (round .binary64 sign (total.natAbs * 2 ^ (-exponent).toNat) exponent) := by
    obtain ⟨n, fits, same⟩ := exists_of_round sign exponent
      (Nat.mul_ne_zero some (Nat.two_pow_pos (-exponent).toNat).ne')
    have shifted : (total.natAbs * 2 ^ (-exponent).toNat) <<< n =
        total.natAbs * 2 ^ (-(exponent - n)).toNat := by
      rw [Nat.shiftLeft_eq, Nat.mul_assoc, ← Nat.pow_add]
      congr 2
      omega
    rw [shifted] at fits same
    rw [same]
    exact represents_roundWithAccuracy some small (by omega) fits
  have scale : (0 : Int) < 2 ^ (-exponent).toNat := by positivity
  unfold UnpackedFloat.normalize
  split
  · next negative =>
    have less := neg_of_mul_neg_left (Int.compare_eq_lt.mp negative) scale.le
    have magnitude : -(total * 2 ^ (-exponent).toNat) =
        ((total.natAbs * 2 ^ (-exponent).toNat : Nat) : Int) := by
      push_cast
      rw [abs_of_neg less]
      ring
    have result := rounded .negative (by omega)
    rw [magnitude, Int.toNat_natCast]
    rwa [show Sign.negative.apply total.natAbs = total by
      change -(total.natAbs : Int) = total
      omega] at result
  · next zero =>
    exact (Int.mul_eq_zero.mp (Int.compare_eq_eq.mp zero)).resolve_right scale.ne'
  · next positive =>
    have more := pos_of_mul_pos_left (Int.compare_eq_gt.mp positive) scale.le
    have magnitude : total * 2 ^ (-exponent).toNat =
        ((total.natAbs * 2 ^ (-exponent).toNat : Nat) : Int) := by
      push_cast
      rw [abs_of_pos more]
    have result := rounded .positive (by omega)
    rw [magnitude, Int.toNat_natCast]
    rwa [show Sign.positive.apply total.natAbs = total by
      change (total.natAbs : Int) = total
      omega] at result

/-- The double of an integer of at most fifty-three binary digits has no places left of the
units. -/
theorem nonpos_of_represents {positive : 0 < mantissa}
    (rounded : IsRounded (.finite sign mantissa exponent positive))
    (represents : Represents i (.finite sign mantissa exponent positive))
    (small : i.natAbs < 2 ^ 53) : exponent ≤ 0 := by
  by_contra large
  obtain ⟨magnitude, -⟩ := magnitude_of_represents represents
  have leading : leadingBit ≤ mantissa := rounded.2.2 (by rw [minExponent]; omega)
  rw [show (-exponent).toNat = 0 by omega, Nat.pow_zero, Nat.mul_one] at magnitude
  have units : 2 ^ 1 ≤ 2 ^ exponent.toNat := Nat.pow_le_pow_right (by decide) (by omega)
  have product := Nat.mul_le_mul leading units
  rw [magnitude] at product
  exact absurd small (Nat.not_lt.mpr product)

end Sums

theorem apply_shiftLeft (sign : Sign) (m n : Nat) :
    sign.apply (m <<< n : Nat) = sign.apply m * 2 ^ n := by
  rw [Nat.shiftLeft_eq]
  cases sign with
  | positive => exact (Nat.cast_mul m _).trans (by push_cast; rfl)
  | negative =>
    change -((m * 2 ^ n : Nat) : Int) = -(m : Int) * 2 ^ n
    push_cast
    ring

theorem represents_add (roundedLeft : IsRounded u) (roundedRight : IsRounded v)
    (left : Represents i u) (right : Represents j v) (smallLeft : i.natAbs < 2 ^ 53)
    (smallRight : j.natAbs < 2 ^ 53) (small : (i + j).natAbs < 2 ^ 53) :
    Represents (i + j) (add .binary64 u v) := by
  cases u with
  | notANumber | infinity => cases left
  | zero s =>
    cases left
    rw [Int.zero_add]
    cases v with
    | notANumber | infinity => cases right
    | zero t =>
      change Represents j (if s == t then .zero s else .zero .positive)
      split <;> exact right
    | finite => exact right
  | finite s₁ m₁ e₁ p₁ =>
    cases v with
    | notANumber | infinity => cases right
    | zero t =>
      cases right
      rw [Int.add_zero]
      exact left
    | finite s₂ m₂ e₂ p₂ =>
      have first := nonpos_of_represents roundedLeft left smallLeft
      have second := nonpos_of_represents roundedRight right smallRight
      have term {s : Sign} {m : Nat} {e n : Int} {p : 0 < m} (units : e ≤ 0)
          (represents : Represents n (.finite s m e p)) (least : min e₁ e₂ ≤ e) :
          s.apply (m <<< (e - min e₁ e₂).toNat : Nat) = n * 2 ^ (-min e₁ e₂).toNat := by
        rw [Represents, show e.toNat = 0 by omega, pow_zero, Int.mul_one] at represents
        rw [apply_shiftLeft, represents, Int.mul_assoc, ← pow_add]
        congr 2
        omega
      change Represents (i + j) (UnpackedFloat.normalize .binary64
        (s₁.apply (m₁ <<< (e₁ - min e₁ e₂).toNat : Nat) +
          s₂.apply (m₂ <<< (e₂ - min e₁ e₂).toNat : Nat)) (min e₁ e₂) .positive)
      rw [term first left (Int.min_le_left _ _), term second right (Int.min_le_right _ _),
        ← Int.add_mul]
      exact represents_normalize small (by omega)

theorem represents_add_unpack (left : Represents i x.toModel.unpack)
    (right : Represents j y.toModel.unpack) (smallLeft : i.natAbs < 2 ^ 53)
    (smallRight : j.natAbs < 2 ^ 53) (small : (i + j).natAbs < 2 ^ 53) :
    Represents (i + j) (x + y).toModel.unpack := by
  have rounded := isRounded_add (isRounded_unpack x) (isRounded_unpack y)
  have total := represents_add (isRounded_unpack x) (isRounded_unpack y) left right smallLeft
    smallRight small
  have same : (x + y).toModel.unpack = _ := unpack_pack rounded
  rw [same]
  cases sum : add .binary64 x.toModel.unpack y.toModel.unpack with
  | notANumber | infinity | zero =>
    rw [sum] at total
    exact total
  | finite sign mantissa exponent positive =>
    rw [sum] at total rounded
    have units := nonpos_of_represents rounded total small
    rw [settled, if_neg (by omega)]
    exact total

/-- Integers of at most fifty-three binary digits in total are added without rounding. -/
theorem represents_sum {xs : List Float} {value : Float → Int}
    (each : ∀ x ∈ xs, Represents (value x) x.toModel.unpack)
    (small : (xs.map fun x => (value x).natAbs).sum < 2 ^ 53) :
    Represents (xs.map value).sum (sum xs).toModel.unpack := by
  have added (xs : List Float) (start : Float) (n : Int)
      (represents : Represents n start.toModel.unpack)
      (each : ∀ x ∈ xs, Represents (value x) x.toModel.unpack)
      (small : n.natAbs + (xs.map fun x => (value x).natAbs).sum < 2 ^ 53) :
      Represents (n + (xs.map value).sum) (xs.foldl (· + ·) start).toModel.unpack := by
    induction xs generalizing start n with
    | nil =>
      rw [List.map_nil, List.sum_nil, Int.add_zero]
      exact represents
    | cons x rest ih =>
      obtain ⟨here, others⟩ := List.forall_mem_cons.mp each
      rw [List.map_cons, List.sum_cons] at small ⊢
      have apart := Int.natAbs_add_le n (value x)
      rw [← Int.add_assoc]
      refine ih _ _ (represents_add_unpack represents here ?_ ?_ ?_) others ?_ <;> omega
  have zero : Represents 0 (-0.0 : Float).toModel.unpack := rfl
  have total := added xs (-0.0) 0 zero each (by simpa using small)
  rwa [Int.zero_add] at total

theorem represents_of_small (whole : IsWhole x) (small : (toInt64 x).toInt.natAbs < 2 ^ 53) :
    Represents (toInt64 x).toInt x.toModel.unpack := by
  obtain ⟨i, represents⟩ := exists_represents whole
  rw [toInt64_of_represents represents] at small ⊢
  by_cases low : i < -2 ^ 63
  · rw [Int64.ofIntClamp, dif_neg (by change ¬ -9223372036854775808 ≤ i; omega)] at small
    exact absurd small (by decide)
  · by_cases high : 2 ^ 63 ≤ i
    · rw [Int64.ofIntClamp, dif_pos (by change -9223372036854775808 ≤ i; omega),
        dif_neg (by change ¬ i ≤ 9223372036854775807; omega)] at small
      exact absurd small (by decide)
    · rwa [toInt_ofIntClamp (by omega) (by omega)]

/-- The double sum of integers is their exact sum as long as it stays below `2 ^ 53`. -/
theorem toInt64_sum {xs : List Float} (whole : ∀ x ∈ xs, IsWhole x)
    (small : (xs.map fun x => (toInt64 x).toInt.natAbs).sum < 2 ^ 53) :
    (sum xs).isFinite = true ∧
      (toInt64 (sum xs)).toInt = (xs.map fun x => (toInt64 x).toInt).sum := by
  have each : ∀ x ∈ xs, Represents (toInt64 x).toInt x.toModel.unpack := by
    intro x member
    refine represents_of_small (whole x member) (Nat.lt_of_le_of_lt ?_ small)
    exact List.le_sum_of_mem (List.mem_map_of_mem member)
  have total := represents_sum each small
  have bound : (xs.map fun x => (toInt64 x).toInt).sum.natAbs ≤
      (xs.map fun x => (toInt64 x).toInt.natAbs).sum := by
    clear whole small each total
    induction xs with
    | nil => exact Nat.le_refl 0
    | cons x rest ih =>
      simp only [List.map_cons, List.sum_cons]
      omega
  constructor
  · change (sum xs).toModel.unpack.isFinite = true
    cases unpacked : (sum xs).toModel.unpack <;> rw [unpacked] at total <;> first | rfl | cases total
  · rw [toInt64_of_represents total, toInt_ofIntClamp (by omega) (by omega)]

/-! ### Zeros of either sign -/

/-- The same number; the sign of a zero makes no difference. -/
def Alike (u v : UnpackedFloat) : Prop := u = v ∨ ∃ s t, u = .zero s ∧ v = .zero t

theorem alike_add (left : Alike u u') (right : Alike v v') :
    Alike (add .binary64 u v) (add .binary64 u' v') := by
  have zeros (s t : Sign) : ∃ r, add .binary64 (.zero s) (.zero t) = .zero r := by
    cases s <;> cases t <;> exact ⟨_, rfl⟩
  have zeroLeft (s t : Sign) (v : UnpackedFloat) :
      Alike (add .binary64 (.zero s) v) (add .binary64 (.zero t) v) := by
    cases v with
    | notANumber | infinity | finite => exact .inl rfl
    | zero r =>
      obtain ⟨first, same⟩ := zeros s r
      obtain ⟨second, same'⟩ := zeros t r
      exact .inr ⟨first, second, same, same'⟩
  have zeroRight (s t : Sign) (u : UnpackedFloat) :
      Alike (add .binary64 u (.zero s)) (add .binary64 u (.zero t)) := by
    cases u with
    | notANumber | infinity | finite => exact .inl rfl
    | zero r =>
      obtain ⟨first, same⟩ := zeros r s
      obtain ⟨second, same'⟩ := zeros r t
      exact .inr ⟨first, second, same, same'⟩
  rcases left with rfl | ⟨s, t, rfl, rfl⟩
  · rcases right with rfl | ⟨s, t, rfl, rfl⟩
    · exact .inl rfl
    · exact zeroRight s t u
  · rcases right with rfl | ⟨s', t', rfl, rfl⟩
    · exact zeroLeft s t v
    · obtain ⟨first, same⟩ := zeros s s'
      obtain ⟨second, same'⟩ := zeros t t'
      exact .inr ⟨first, second, same, same'⟩

theorem alike_of_beq (same : (x == y) = true) : Alike x.toModel.unpack y.toModel.unpack := by
  obtain ⟨-, -, rfl | ⟨rfl, rfl⟩ | ⟨rfl, rfl⟩⟩ := Float.beq_iff_ne_nan_and_eq.mp same
  · exact .inl rfl
  · exact .inr ⟨.positive, .negative, rfl, rfl⟩
  · exact .inr ⟨.negative, .positive, rfl, rfl⟩

theorem alike_add_unpack (left : Alike x.toModel.unpack x'.toModel.unpack)
    (right : Alike y.toModel.unpack y'.toModel.unpack) :
    Alike (x + y).toModel.unpack (x' + y').toModel.unpack := by
  have first : (x + y).toModel.unpack = _ :=
    unpack_pack (isRounded_add (isRounded_unpack x) (isRounded_unpack y))
  have second : (x' + y').toModel.unpack = _ :=
    unpack_pack (isRounded_add (isRounded_unpack x') (isRounded_unpack y'))
  rw [first, second]
  rcases alike_add left right with same | ⟨s, t, same, same'⟩
  · exact .inl (congrArg settled same)
  · exact .inr ⟨s, t, by rw [same]; rfl, by rw [same']; rfl⟩

theorem toInt64_congr (alike : Alike x.toModel.unpack y.toModel.unpack) : toInt64 x = toInt64 y := by
  unfold toInt64
  rw [parts_eq, parts_eq]
  rcases alike with same | ⟨s, t, same, same'⟩
  · rw [same]
  · rw [same, same']
    cases s <;> cases t <;> rfl

/-- Sums of numbers that are alike. -/
theorem alike_sum {xs ys : List Float}
    (each : List.Forall₂ (fun x y => Alike x.toModel.unpack y.toModel.unpack) xs ys) :
    Alike (sum xs).toModel.unpack (sum ys).toModel.unpack := by
  have added (xs ys : List Float) (a b : Float) (first : Alike a.toModel.unpack b.toModel.unpack)
      (each : List.Forall₂ (fun x y => Alike x.toModel.unpack y.toModel.unpack) xs ys) :
      Alike (xs.foldl (· + ·) a).toModel.unpack (ys.foldl (· + ·) b).toModel.unpack := by
    induction each generalizing a b with
    | nil => exact first
    | cons here _ ih => exact ih _ _ (alike_add_unpack first here)
  exact added xs ys _ _ (.inl rfl) each

/-! ### Multiplying and dividing by one -/

/-- A double that is written with more places is rounded to itself. -/
theorem roundWithAccuracy_shiftLeft {sign : Sign} {mantissa : Nat} {exponent : Int}
    {positive : 0 < mantissa} (rounded : IsRounded (.finite sign mantissa exponent positive))
    (n : Nat) :
    roundWithAccuracy .binary64 sign (mantissa <<< n) (exponent - n) .exact =
      .finite sign mantissa exponent positive := by
  obtain ⟨below, least, leading⟩ := rounded
  have target : targetOf (mantissa <<< n) (exponent - n) = exponent := by
    have upper : mantissa.log2 < 53 := (Nat.log2_lt positive.ne').mpr below
    rw [targetOf, log2_shiftLeft positive.ne']
    by_cases subnormal : exponent = minExponent
    · omega
    · have lower : 52 ≤ mantissa.log2 := (Nat.le_log2 positive.ne').mpr (leading subnormal)
      omega
  have kept : roundedAt (mantissa <<< n) (exponent - n) .exact = mantissa := by
    have cut := shiftRight_of_dvd (Dvd.intro_left mantissa (Nat.shiftLeft_eq mantissa n).symm)
    rw [Nat.shiftLeft_eq, Nat.mul_div_cancel _ (Nat.two_pow_pos n), ← Nat.shiftLeft_eq] at cut
    rw [roundedAt, target, show (exponent - (exponent - n)).toNat = n by omega]
    exact congrArg ExtendedMantissa.roundedMantissa cut
  have fits : exponent - n ≤ targetOf (mantissa <<< n) (exponent - n) := by
    rw [target]
    omega
  rcases roundWithAccuracy_eq sign .exact fits with ⟨result, -⟩ | ⟨carries, -⟩
  · rw [result, kept, target, assembled, dif_neg positive.ne']
  · exact absurd (kept ▸ carries) below.ne

theorem parts_one : parts 1.0 = .finite false leadingBit (-52) := by decide +kernel

theorem unpack_one : ∃ positive, (1.0 : Float).toModel.unpack =
    .finite .positive leadingBit (-52) positive := by
  obtain ⟨sign, positive, isPositive, unpacked⟩ := unpack_of_parts (by decide) parts_one
  cases sign with
  | positive => exact ⟨positive, unpacked⟩
  | negative => cases isPositive

theorem eq_of_unpack {x y : Float} (same : x.toModel.unpack = y.toModel.unpack) : x = y := by
  have bits := (unpack_inj_of_valid x.toModel.valid y.toModel.valid).mp same
  exact Float.toBits_inj.mp (UInt64.toBitVec_inj.mp bits)

theorem pack_unpack_eq (x : Float) : .ofModel (Float.Model.pack x.toModel.unpack) = x :=
  eq_of_unpack ((unpack_pack (isRounded_unpack x)).trans (settled_unpack x))

theorem mul_one_of_isFinite (finite : x.isFinite = true) : x * 1.0 = x := by
  obtain ⟨positive, one⟩ := unpack_one
  have product : mul .binary64 x.toModel.unpack (1.0 : Float).toModel.unpack =
      x.toModel.unpack := by
    change x.toModel.unpack.isFinite = true at finite
    have rounded := isRounded_unpack x
    rw [one]
    cases unpacked : x.toModel.unpack with
    | notANumber | infinity =>
      rw [unpacked] at finite
      cases finite
    | zero sign => cases sign <;> rfl
    | finite sign mantissa exponent positive' =>
      rw [unpacked] at rounded
      refine Eq.trans ?_ (roundWithAccuracy_shiftLeft rounded 52)
      rw [Nat.shiftLeft_eq]
      cases sign <;> rfl
  exact (congrArg (fun u => Float.ofModel (Float.Model.pack u)) product).trans (pack_unpack_eq x)

/-- A quotient by one is exact: the mantissa is only shifted. -/
theorem divCore_one {mantissa : Nat} {exponent : Int} (some : 0 < mantissa)
    (below : mantissa < 2 * leadingBit) (least : minExponent ≤ exponent) :
    ∃ n : Nat, divCore .binary64 mantissa exponent leadingBit (-52) =
      (mantissa <<< n, exponent - n, .exact) := by
  have digits : mantissa.log2 < 53 := (Nat.log2_lt some.ne').mpr below
  have target : Format.targetExponent .binary64
      (totalExponent mantissa exponent - totalExponent leadingBit (-52)) =
        max (mantissa.log2 + 1 + exponent - 1 - 53) minExponent := by
    rw [show totalExponent leadingBit (-52) = 1 by decide]
    rfl
  obtain ⟨n, reached⟩ : ∃ n : Nat,
      min (exponent - -52) (max (mantissa.log2 + 1 + exponent - 1 - 53) minExponent) =
        exponent - n :=
    ⟨(exponent - max (mantissa.log2 + 1 + exponent - 1 - 53) minExponent).toNat, by omega⟩
  have shifted : mantissa <<< (n + 52) = mantissa <<< n * leadingBit := by
    rw [Nat.shiftLeft_add, Nat.shiftLeft_eq _ 52]
    rfl
  refine ⟨n, ?_⟩
  unfold divCore
  dsimp only
  rw [target, reached, show (exponent - -52 - (exponent - n)).toNat = n + 52 by omega, shifted,
    Nat.mul_div_cancel _ (by decide), Nat.mul_mod_left]
  rfl

theorem div_one_of_isFinite (finite : x.isFinite = true) : x / 1.0 = x := by
  obtain ⟨positive, one⟩ := unpack_one
  have quotient : div .binary64 x.toModel.unpack (1.0 : Float).toModel.unpack =
      x.toModel.unpack := by
    change x.toModel.unpack.isFinite = true at finite
    have rounded := isRounded_unpack x
    rw [one]
    cases unpacked : x.toModel.unpack with
    | notANumber | infinity =>
      rw [unpacked] at finite
      cases finite
    | zero sign => cases sign <;> rfl
    | finite sign mantissa exponent positive' =>
      rw [unpacked] at rounded
      obtain ⟨n, exact'⟩ := divCore_one positive' rounded.1 rounded.2.1
      refine Eq.trans ?_ (roundWithAccuracy_shiftLeft rounded n)
      rw [UnpackedFloat.div, exact']
      cases sign <;> rfl
  exact (congrArg (fun u => Float.ofModel (Float.Model.pack u)) quotient).trans (pack_unpack_eq x)

end DocExamples.Binary64
