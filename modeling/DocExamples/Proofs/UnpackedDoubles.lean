import DocExamples.Proofs.Rounding
/-!
Arithmetic on doubles through their mantissas and exponents: what it computes exactly, and how the
result is rounded.
-/
namespace DocExamples.Binary64

open Float.Model UnpackedFloat

/-! ### Unpacked doubles -/

def isNegative : Sign → Bool
  | .negative => true
  | .positive => false

/-- The parts of an unpacked double. -/
def partsOf : UnpackedFloat → Parts
  | .notANumber => .nan
  | .infinity sign => .infinite (isNegative sign)
  | .zero sign => .finite (isNegative sign) 0 minExponent
  | .finite sign mantissa exponent _ => .finite (isNegative sign) mantissa exponent

theorem toNat_unpackExponent (b : BitVec 64) :
    (@unpackExponent .binary64 b).toNat = b.toNat / 2 ^ 52 % 2 ^ 11 := by
  rw [unpackExponent_def, BitVec.extractLsb'_toNat, Nat.shiftRight_eq_div_pow]

theorem toNat_unpackMantissa (b : BitVec 64) :
    (@unpackMantissa .binary64 b).toNat = b.toNat % 2 ^ 52 := by
  rw [unpackMantissa_def, BitVec.extractLsb'_toNat, Nat.shiftRight_zero]

theorem isNegative_unpackSign (b : BitVec 64) :
    isNegative (Sign.ofBitVec (@unpackSign .binary64 b)) = decide (b.toNat / 2 ^ 63 = 1) := by
  have bit : (@unpackSign .binary64 b).toNat = b.toNat / 2 ^ 63 := by
    have bound := b.isLt
    rw [unpackSign_def, BitVec.extractLsb'_toNat, Nat.shiftRight_eq_div_pow]
    exact Nat.mod_eq_of_lt (Nat.div_lt_of_lt_mul (by omega))
  have positive : @unpackSign .binary64 b = 0#1 ↔ b.toNat / 2 ^ 63 = 0 := by
    rw [← bit, ← BitVec.toNat_inj]
    rfl
  have bound := (@unpackSign .binary64 b).isLt
  rw [Sign.ofBitVec, eq_comm]
  split
  · next zero =>
    rw [positive.mp zero]
    rfl
  · next one =>
    rw [positive] at one
    exact decide_eq_true (by omega)

/-- The parts of a double are those of its unpacked form. -/
theorem parts_eq (x : Float) : parts x = partsOf x.toModel.unpack := by
  have exponent : (@unpackExponent .binary64 x.toBits.toBitVec).toNat =
      x.toBits.toNat / 2 ^ 52 % 2 ^ 11 := toNat_unpackExponent _
  have mantissa : (@unpackMantissa .binary64 x.toBits.toBitVec).toNat = x.toBits.toNat % 2 ^ 52 :=
    toNat_unpackMantissa _
  have sign : (x.toBits >>> 63 == 1) =
      isNegative (Sign.ofBitVec (@unpackSign .binary64 x.toBits.toBitVec)) := by
    rw [isNegative_unpackSign, Bool.eq_iff_iff, isNegative_iff, decide_eq_true_eq]
    rfl
  have special : @unpackExponent .binary64 x.toBits.toBitVec = -1#11 ↔
      x.toBits.toNat / 2 ^ 52 % 2 ^ 11 = 2047 := by
    rw [← BitVec.toNat_inj, exponent]
    rfl
  have subnormal : @unpackExponent .binary64 x.toBits.toBitVec = 0#11 ↔
      x.toBits.toNat / 2 ^ 52 % 2 ^ 11 = 0 := by
    rw [← BitVec.toNat_inj, exponent]
    rfl
  have none : @unpackMantissa .binary64 x.toBits.toBitVec = 0#52 ↔
      x.toBits.toNat % 2 ^ 52 = 0 := by
    rw [← BitVec.toNat_inj, mantissa]
    rfl
  change parts x = partsOf (UnpackedFloat.unpack .binary64 x.toBits.toBitVec)
  unfold parts UnpackedFloat.unpack
  simp only [toNat_field, toNat_fraction, beq_iff_eq, sign]
  split
  · next isSpecial =>
    rw [if_pos (special.mpr isSpecial)]
    split
    · next isInfinite =>
      rw [if_pos (none.mpr isInfinite)]
      rfl
    · next isNaN =>
      rw [if_neg (mt none.mp isNaN)]
      rfl
  · next notSpecial =>
    rw [if_neg (mt special.mp notSpecial)]
    split
    · next isSubnormal =>
      rw [if_pos (subnormal.mpr isSubnormal)]
      split
      · next zero =>
        rw [none.mp zero]
        rfl
      · rw [partsOf, mantissa, exponent, isSubnormal]
        rfl
    · next normal =>
      rw [if_neg (mt subnormal.mp normal), partsOf, toNat_normalMantissa, mantissa, exponent,
        Nat.add_comm]
      rfl

/-- An unpacked result with the mantissa of a double; its exponent may be too large for one. -/
def IsRounded : UnpackedFloat → Prop
  | .finite _ mantissa exponent _ =>
    mantissa < 2 * leadingBit ∧ minExponent ≤ exponent ∧
      (exponent ≠ minExponent → leadingBit ≤ mantissa)
  | _ => True

/-- What is too large for a double is infinite. -/
def settled : UnpackedFloat → UnpackedFloat
  | .finite sign mantissa exponent positive =>
    if 971 < exponent then .infinity sign else .finite sign mantissa exponent positive
  | u => u

theorem unpack_packComponents (sign : Sign) (exponent : BitVec 11) (mantissa : BitVec 52) :
    UnpackedFloat.unpack .binary64 (packComponents .binary64 sign exponent mantissa) =
      ofFields sign exponent mantissa := unpack_bitsOf

theorem unpack_pack {u : UnpackedFloat} (rounded : IsRounded u) :
    (Float.Model.pack u).unpack = settled u := by
  change UnpackedFloat.unpack .binary64 (UnpackedFloat.pack .binary64 u) = settled u
  cases u with
  | notANumber => exact unpack_packedNaN
  | zero sign => exact unpack_packedZero
  | infinity sign => exact unpack_packComponents sign (-1#11) 0#52
  | finite sign mantissa exponent positive =>
    obtain ⟨below, least, leading⟩ := rounded
    rw [leadingBit] at below leading
    rw [minExponent] at least leading
    have field : (exponent + (Format.exponentBias .binary64 : Int) + (52 : Nat)).toNat =
        (exponent + 1075).toNat := by
      rw [show Format.exponentBias .binary64 = 1023 from rfl]
      omega
    have full : mantissa.log2 + 1 = Format.mantissaBits .binary64 ↔ 2 ^ 52 ≤ mantissa := by
      have upper : mantissa.log2 < 53 := (Nat.log2_lt positive.ne').mpr (by omega)
      have lower := Nat.le_log2 (k := 52) positive.ne'
      rw [show Format.mantissaBits .binary64 = 53 from rfl]
      omega
    unfold UnpackedFloat.pack settled
    dsimp only
    rw [field]
    simp only [full]
    split
    · next large =>
      change 2 ^ 11 ≤ _ at large
      rw [if_pos (show 971 < exponent by omega)]
      exact unpack_packComponents sign (-1#11) 0#52
    · next small =>
      change ¬2 ^ 11 ≤ _ at small
      rw [if_neg (show ¬971 < exponent by omega)]
      split
      · next normal =>
        refine (unpack_packComponents _ _ _).trans ?_
        have notSpecial : BitVec.ofNat 11 (exponent + 1075).toNat ≠ -1#11 := by
          rw [← BitVec.toNat_inj.ne, BitVec.toNat_ofNat]
          change _ ≠ 2047
          omega
        have notZero : BitVec.ofNat 11 (exponent + 1075).toNat ≠ 0#11 := by
          rw [← BitVec.toNat_inj.ne, BitVec.toNat_ofNat]
          change _ ≠ 0
          omega
        rw [ofFields, if_neg notSpecial, if_neg notZero]
        congr 1
        · rw [toNat_normalMantissa, BitVec.toNat_ofNat]
          omega
        · rw [BitVec.toNat_ofNat]
          omega
      · next subnormal =>
        refine (unpack_packComponents _ _ _).trans ?_
        have back : (BitVec.ofNat 52 mantissa).toNat = mantissa := by
          rw [BitVec.toNat_ofNat]
          omega
        have some : BitVec.ofNat 52 mantissa ≠ 0#52 := by
          rw [← BitVec.toNat_inj.ne, back]
          exact positive.ne'
        rw [ofFields, if_neg (by decide), if_pos rfl, dif_neg some]
        congr 1
        by_contra apart
        exact subnormal (leading (Ne.symm apart))

/-! ### Rounding -/

/-- The unpacked number with that mantissa and exponent. -/
def assembled (sign : Sign) (mantissa : Nat) (exponent : Int) : UnpackedFloat :=
  if some : mantissa = 0 then .zero sign
  else .finite sign mantissa exponent (Nat.pos_of_ne_zero some)

/-- The exponent that a number has as a double. -/
def targetOf (mantissa : Nat) (exponent : Int) : Int :=
  max (mantissa.log2 + 1 + exponent - 53) minExponent

theorem mantissa_shiftRight (em : ExtendedMantissa) (n : Nat) :
    (em >>> n).mantissa = em.mantissa / 2 ^ n := by
  change (n.repeat ExtendedMantissa.shiftRightOne em).mantissa = _
  induction n with
  | zero => exact (Nat.div_one _).symm
  | succ n ih =>
    rw [Nat.pow_succ, ← Nat.div_div_eq_div_mul, ← ih]
    rfl

/-- Zeros that are shifted out leave the mantissa exact. -/
theorem shiftRight_of_dvd {mantissa n : Nat} (zeros : 2 ^ n ∣ mantissa) :
    (⟨mantissa, false, false⟩ : ExtendedMantissa) >>> n = ⟨mantissa / 2 ^ n, false, false⟩ := by
  change n.repeat ExtendedMantissa.shiftRightOne _ = _
  induction n with
  | zero => rw [Nat.pow_zero, Nat.div_one]; rfl
  | succ n ih =>
    obtain ⟨rest, rfl⟩ := zeros
    have inner : 2 ^ (n + 1) * rest / 2 ^ n = 2 * rest := by
      rw [Nat.pow_succ, Nat.mul_assoc, Nat.mul_div_cancel_left _ (Nat.two_pow_pos n)]
    have outer : 2 ^ (n + 1) * rest / 2 ^ (n + 1) = rest :=
      Nat.mul_div_cancel_left _ (Nat.two_pow_pos _)
    rw [outer]
    change ExtendedMantissa.shiftRightOne (n.repeat ExtendedMantissa.shiftRightOne _) = _
    rw [ih ⟨2 * rest, by rw [Nat.pow_succ, Nat.mul_assoc]⟩, inner]
    simp [ExtendedMantissa.shiftRightOne]

theorem roundedMantissa_bounds (em : ExtendedMantissa) :
    em.mantissa ≤ em.roundedMantissa ∧ em.roundedMantissa ≤ em.mantissa + 1 := by
  obtain ⟨mantissa, round, sticky⟩ := em
  cases round <;> cases sticky <;>
    simp [ExtendedMantissa.roundedMantissa, ExtendedMantissa.accuracy,
      Accuracy.roundToNearestEven]
  omega

theorem shiftToTargetExponent_eq (mantissa : Nat) (exponent : Int) (accuracy : Accuracy) :
    shiftToTargetExponent .binary64 mantissa exponent accuracy =
      (ExtendedMantissa.ofMantissaAndAccuracy mantissa accuracy >>>
        (targetOf mantissa exponent - exponent).toNat,
      exponent + (targetOf mantissa exponent - exponent).toNat) := rfl

section Rounding

variable {mantissa : Nat} {exponent : Int}

theorem mantissa_ofMantissaAndAccuracy (mantissa : Nat) (accuracy : Accuracy) :
    (ExtendedMantissa.ofMantissaAndAccuracy mantissa accuracy).mantissa = mantissa := by
  unfold ExtendedMantissa.ofMantissaAndAccuracy
  split <;> rfl

/-- A mantissa that is cut to the target exponent has at most fifty-three binary digits, and
exactly so many above the least exponent. -/
theorem cut_bounds (fits : exponent ≤ targetOf mantissa exponent) :
    mantissa / 2 ^ (targetOf mantissa exponent - exponent).toNat < 2 * leadingBit ∧
      (targetOf mantissa exponent ≠ minExponent →
        leadingBit ≤ mantissa / 2 ^ (targetOf mantissa exponent - exponent).toNat) := by
  have split : 2 * leadingBit = 2 ^ 53 := rfl
  have half : leadingBit = 2 ^ 52 := rfl
  rw [split, half]
  unfold targetOf at *
  constructor
  · rw [Nat.div_lt_iff_lt_mul (Nat.two_pow_pos _), ← Nat.pow_add]
    refine Nat.lt_of_lt_of_le Nat.lt_log2_self (Nat.pow_le_pow_right (by decide) ?_)
    omega
  · intro apart
    have some : mantissa ≠ 0 := by
      rintro rfl
      rw [Nat.log2_zero] at *
      omega
    rw [Nat.le_div_iff_mul_le (Nat.two_pow_pos _), ← Nat.pow_add]
    refine Nat.le_trans (Nat.pow_le_pow_right (by decide) ?_) (Nat.log2_self_le some)
    omega

theorem targetOf_of_lt {rounded : Nat} (small : rounded < 2 * leadingBit)
    (least : minExponent ≤ exponent) : targetOf rounded exponent ≤ exponent := by
  have digits : rounded.log2 ≤ 52 := by
    by_cases none : rounded = 0
    · rw [none, Nat.log2_zero]
      exact Nat.zero_le _
    · exact Nat.le_of_lt_succ ((Nat.log2_lt none).mpr small)
  unfold targetOf
  omega

/-- The mantissa that rounding gives before it may be shifted once more. -/
def roundedAt (mantissa : Nat) (exponent : Int) (accuracy : Accuracy) : Nat :=
  (ExtendedMantissa.ofMantissaAndAccuracy mantissa accuracy >>>
    (targetOf mantissa exponent - exponent).toNat).roundedMantissa

/-- A result is rounded to the target exponent, or to the next power of two. -/
theorem roundWithAccuracy_eq (sign : Sign) (accuracy : Accuracy)
    (fits : exponent ≤ targetOf mantissa exponent) :
    (roundWithAccuracy .binary64 sign mantissa exponent accuracy =
        assembled sign (roundedAt mantissa exponent accuracy) (targetOf mantissa exponent) ∧
      roundedAt mantissa exponent accuracy < 2 * leadingBit ∧
      (targetOf mantissa exponent ≠ minExponent →
        leadingBit ≤ roundedAt mantissa exponent accuracy)) ∨
    roundedAt mantissa exponent accuracy = 2 * leadingBit ∧
      roundWithAccuracy .binary64 sign mantissa exponent accuracy =
        assembled sign leadingBit (targetOf mantissa exponent + 1) := by
  obtain ⟨below, leading⟩ := cut_bounds fits
  have least : minExponent ≤ targetOf mantissa exponent := Int.le_max_right _ _
  have near := roundedMantissa_bounds
    (ExtendedMantissa.ofMantissaAndAccuracy mantissa accuracy >>>
      (targetOf mantissa exponent - exponent).toNat)
  rw [mantissa_shiftRight, mantissa_ofMantissaAndAccuracy] at near
  change _ ≤ roundedAt mantissa exponent accuracy ∧ roundedAt mantissa exponent accuracy ≤ _ at near
  have reached : exponent + (targetOf mantissa exponent - exponent).toNat =
      targetOf mantissa exponent := by omega
  have result : roundWithAccuracy .binary64 sign mantissa exponent accuracy =
      assembled sign
        (roundedAt mantissa exponent accuracy /
          2 ^ (targetOf (roundedAt mantissa exponent accuracy) (targetOf mantissa exponent) -
            targetOf mantissa exponent).toNat)
        (targetOf mantissa exponent +
          (targetOf (roundedAt mantissa exponent accuracy) (targetOf mantissa exponent) -
            targetOf mantissa exponent).toNat) := by
    unfold roundWithAccuracy
    simp only [shiftToTargetExponent_eq, reached, mantissa_shiftRight,
      mantissa_ofMantissaAndAccuracy]
    rfl
  rw [result]
  generalize roundedAt mantissa exponent accuracy = rounded at *
  generalize targetOf mantissa exponent = target at *
  by_cases carries : rounded = 2 * leadingBit
  · right
    subst carries
    have next : targetOf (2 * leadingBit) target = target + 1 := by
      have digits : (2 * leadingBit).log2 = 53 := by decide
      rw [targetOf, digits]
      omega
    rw [next, show (target + 1 - target).toNat = 1 by omega]
    exact ⟨rfl, rfl⟩
  · left
    have small : rounded < 2 * leadingBit := by omega
    have same : (targetOf rounded target - target).toNat = 0 := by
      have := targetOf_of_lt small least
      omega
    rw [same, Nat.pow_zero, Nat.div_one, Int.natCast_zero, Int.add_zero]
    exact ⟨rfl, small, fun apart => Nat.le_trans (leading apart) near.1⟩

theorem isRounded_assembled {sign : Sign} (below : mantissa < 2 * leadingBit)
    (least : minExponent ≤ exponent) (leading : exponent ≠ minExponent → leadingBit ≤ mantissa) :
    IsRounded (assembled sign mantissa exponent) := by
  unfold assembled
  split
  · trivial
  · exact ⟨below, least, leading⟩

theorem isRounded_roundWithAccuracy (sign : Sign) (accuracy : Accuracy)
    (fits : exponent ≤ targetOf mantissa exponent) :
    IsRounded (roundWithAccuracy .binary64 sign mantissa exponent accuracy) := by
  have least : minExponent ≤ targetOf mantissa exponent := Int.le_max_right _ _
  rcases roundWithAccuracy_eq sign accuracy fits with ⟨result, below, leading⟩ | ⟨-, result⟩
  · rw [result]
    exact isRounded_assembled below least leading
  · rw [result]
    exact isRounded_assembled (by decide) (by omega) fun _ => Nat.le_refl _

end Rounding

/-! ### Sums and products -/

theorem log2_shiftLeft {mantissa : Nat} (some : mantissa ≠ 0) (n : Nat) :
    (mantissa <<< n).log2 = mantissa.log2 + n := by
  rw [Nat.shiftLeft_eq, Nat.log2_eq_iff (Nat.mul_ne_zero some (Nat.two_pow_pos n).ne')]
  constructor
  · rw [Nat.pow_add]
    exact Nat.mul_le_mul_right _ (Nat.log2_self_le some)
  · rw [Nat.add_right_comm, Nat.pow_add]
    exact Nat.mul_lt_mul_of_pos_right Nat.lt_log2_self (Nat.two_pow_pos n)

section Round

variable {mantissa : Nat} {exponent : Int} {sign : Sign}

/-- A number is written with the exponent of a double, or a lower one, before it is rounded. -/
theorem exists_of_round (sign : Sign) (exponent : Int) (some : mantissa ≠ 0) : ∃ n : Nat,
    exponent - n ≤ targetOf (mantissa <<< n) (exponent - n) ∧
      round .binary64 sign mantissa exponent =
        roundWithAccuracy .binary64 sign (mantissa <<< n) (exponent - n) .exact := by
  refine ⟨(exponent - targetOf mantissa exponent).toNat, ?_, rfl⟩
  have same (n : Nat) : targetOf (mantissa <<< n) (exponent - n) = targetOf mantissa exponent := by
    rw [targetOf, log2_shiftLeft some, targetOf]
    omega
  rw [same]
  omega

theorem isRounded_round (some : mantissa ≠ 0) :
    IsRounded (round .binary64 sign mantissa exponent) := by
  obtain ⟨n, fits, same⟩ := exists_of_round sign exponent some
  rw [same]
  exact isRounded_roundWithAccuracy sign .exact fits

end Round

theorem isRounded_normalize (total exponent : Int) (sign : Sign) :
    IsRounded (UnpackedFloat.normalize .binary64 total exponent sign) := by
  unfold UnpackedFloat.normalize
  split
  · next negative =>
    have := Int.compare_eq_lt.mp negative
    exact isRounded_round (by omega)
  · trivial
  · next positive =>
    have := Int.compare_eq_gt.mp positive
    exact isRounded_round (by omega)

/-- What a sum may be: a special value, one of the terms, or a rounded sum. -/
theorem add_cases {P : UnpackedFloat → Prop} {u v : UnpackedFloat} (nan : P .notANumber)
    (infinity : ∀ sign, P (.infinity sign)) (zero : ∀ sign, P (.zero sign)) (left : P u)
    (right : P v)
    (finite : ∀ {s₁ m₁ e₁ p₁ s₂ m₂ e₂ p₂}, u = .finite s₁ m₁ e₁ p₁ → v = .finite s₂ m₂ e₂ p₂ →
      P (UnpackedFloat.normalize .binary64 (s₁.apply (m₁ <<< (e₁ - min e₁ e₂).toNat : Nat) +
        s₂.apply (m₂ <<< (e₂ - min e₁ e₂).toNat : Nat)) (min e₁ e₂) .positive)) :
    P (add .binary64 u v) := by
  have either {c : Prop} [Decidable c] {a b : UnpackedFloat} (first : P a) (second : P b) :
      P (if c then a else b) := by
    split
    · exact first
    · exact second
  cases u with
  | notANumber => exact nan
  | infinity s =>
    cases v with
    | notANumber => exact nan
    | infinity => exact either (infinity s) nan
    | zero | finite => exact infinity s
  | zero s =>
    cases v with
    | notANumber => exact nan
    | infinity => exact infinity _
    | zero => exact either (zero s) (zero .positive)
    | finite => exact right
  | finite =>
    cases v with
    | notANumber => exact nan
    | infinity => exact infinity _
    | zero => exact left
    | finite => exact finite rfl rfl

theorem isRounded_add {u v : UnpackedFloat} (left : IsRounded u) (right : IsRounded v) :
    IsRounded (add .binary64 u v) :=
  add_cases trivial (fun _ => trivial) (fun _ => trivial) left right fun _ _ =>
    isRounded_normalize _ _ _

theorem sub_eq_add_neg (u v : UnpackedFloat) : sub .binary64 u v = add .binary64 u v.neg := by
  cases u <;> cases v <;> try rfl
  next s₁ m₁ e₁ p₁ s₂ m₂ e₂ p₂ =>
  have negated (n : Int) : (-s₂).apply n = -s₂.apply n := by
    cases s₂ with
    | positive => rfl
    | negative => exact (Int.neg_neg n).symm
  change UnpackedFloat.normalize _ (_ - _) _ _ = UnpackedFloat.normalize _ (_ + (-s₂).apply _) _ _
  rw [negated, ← Int.sub_eq_add_neg]

/-- The product of the mantissas of doubles has digits enough to be rounded, unless its exponent is
that of the smallest doubles. -/
theorem product_fits {m₁ m₂ : Nat} {e₁ e₂ : Int} (some₁ : 0 < m₁) (some₂ : 0 < m₂)
    (leading₁ : e₁ ≠ minExponent → leadingBit ≤ m₁)
    (leading₂ : e₂ ≠ minExponent → leadingBit ≤ m₂) :
    e₁ + e₂ ≤ targetOf (m₁ * m₂) (e₁ + e₂) := by
  unfold targetOf
  by_cases small : e₁ = minExponent ∧ e₂ = minExponent
  · rw [minExponent] at *
    omega
  · have large : leadingBit ≤ m₁ * m₂ := by
      by_cases first : e₁ = minExponent
      · exact Nat.le_trans (leading₂ fun second => small ⟨first, second⟩)
          (Nat.le_mul_of_pos_left _ some₁)
      · exact Nat.le_trans (leading₁ first) (Nat.le_mul_of_pos_right _ some₂)
    have digits : 52 ≤ (m₁ * m₂).log2 :=
      (Nat.le_log2 (Nat.mul_pos some₁ some₂).ne').mpr large
    omega

theorem isRounded_mul {u v : UnpackedFloat} (left : IsRounded u) (right : IsRounded v) :
    IsRounded (mul .binary64 u v) := by
  cases u <;> cases v <;> try trivial
  next s₁ m₁ e₁ p₁ s₂ m₂ e₂ p₂ =>
  exact isRounded_roundWithAccuracy _ _ (product_fits p₁ p₂ left.2.2 right.2.2)

/-! ### Doubles -/

variable {x y : Float}

theorem isFinite_iff : x.isFinite = true ↔
    ∃ negative mantissa exponent, parts x = .finite negative mantissa exponent := by
  change x.toModel.unpack.isFinite = true ↔ _
  rw [parts_eq]
  cases x.toModel.unpack <;> simp [UnpackedFloat.isFinite, partsOf]

theorem isRounded_unpack (x : Float) : IsRounded x.toModel.unpack := by
  have same := parts_eq x
  cases unpacked : x.toModel.unpack with
  | notANumber | infinity | zero => trivial
  | finite sign mantissa exponent =>
    rw [unpacked] at same
    obtain ⟨below, least, -, leading⟩ := (of_parts same).1
    exact ⟨below, least, leading⟩

theorem isRounded_neg {u : UnpackedFloat} (rounded : IsRounded u) : IsRounded u.neg := by
  cases u <;> exact rounded

theorem settled_unpack (x : Float) : settled x.toModel.unpack = x.toModel.unpack := by
  have same := parts_eq x
  cases unpacked : x.toModel.unpack with
  | notANumber | infinity | zero => rfl
  | finite sign mantissa exponent =>
    rw [unpacked] at same
    exact if_neg (Int.not_lt.mpr (of_parts same).1.most)

theorem unpack_neg (x : Float) : (-x).toModel.unpack = x.toModel.unpack.neg := by
  have negated (u : UnpackedFloat) : settled u.neg = (settled u).neg := by
    cases u with
    | notANumber | infinity | zero => rfl
    | finite sign mantissa exponent =>
      change (if 971 < exponent then _ else _) = UnpackedFloat.neg (if 971 < exponent then _ else _)
      split <;> rfl
  refine (unpack_pack (isRounded_neg (isRounded_unpack x))).trans ?_
  rw [negated, settled_unpack]

theorem unpack_abs (x : Float) : x.abs.toModel.unpack = x.toModel.unpack.abs := by
  have rounded {u : UnpackedFloat} (rounded : IsRounded u) : IsRounded u.abs := by
    cases u <;> exact rounded
  have positive (u : UnpackedFloat) : settled u.abs = (settled u).abs := by
    cases u with
    | notANumber | infinity | zero => rfl
    | finite sign mantissa exponent =>
      change (if 971 < exponent then _ else _) = UnpackedFloat.abs (if 971 < exponent then _ else _)
      split <;> rfl
  refine (unpack_pack (rounded (isRounded_unpack x))).trans ?_
  rw [positive, settled_unpack]

/-! ### Numbers of moderate size -/

/-- A finite number that does not need a larger exponent. -/
def AtMost (bound : Int) : UnpackedFloat → Prop
  | .finite _ _ exponent _ => exponent ≤ bound
  | .zero _ => True
  | _ => False

section AtMost

variable {mantissa : Nat} {exponent bound : Int}

theorem atMost_assembled {sign : Sign} (small : exponent ≤ bound) :
    AtMost bound (assembled sign mantissa exponent) := by
  unfold assembled
  split
  · trivial
  · exact small

theorem atMost_roundWithAccuracy (sign : Sign) (accuracy : Accuracy)
    (fits : exponent ≤ targetOf mantissa exponent) (small : targetOf mantissa exponent < bound) :
    AtMost bound (roundWithAccuracy .binary64 sign mantissa exponent accuracy) := by
  rcases roundWithAccuracy_eq sign accuracy fits with ⟨result, -⟩ | ⟨-, result⟩
  · rw [result]
    exact atMost_assembled (Int.le_of_lt small)
  · rw [result]
    exact atMost_assembled small

/-- The target exponent of a number with at most that many binary digits. -/
theorem targetOf_lt (digits : Nat) (some : mantissa ≠ 0) (short : mantissa < 2 ^ digits)
    (least : minExponent < bound) (room : digits + exponent - 53 < bound) :
    targetOf mantissa exponent < bound := by
  have log : mantissa.log2 < digits := (Nat.log2_lt some).mpr short
  unfold targetOf
  omega

theorem atMost_round {sign : Sign} {digits : Nat} (some : mantissa ≠ 0)
    (short : mantissa < 2 ^ digits) (least : minExponent < bound)
    (room : digits + exponent - 53 < bound) :
    AtMost bound (round .binary64 sign mantissa exponent) := by
  obtain ⟨n, fits, same⟩ := exists_of_round sign exponent some
  rw [same]
  refine atMost_roundWithAccuracy sign .exact fits (targetOf_lt (digits + n) ?_ ?_ least ?_)
  · rw [Nat.shiftLeft_eq]
    exact Nat.mul_ne_zero some (Nat.two_pow_pos n).ne'
  · rw [Nat.shiftLeft_eq, Nat.pow_add]
    exact Nat.mul_lt_mul_of_pos_right short (Nat.two_pow_pos n)
  · omega

end AtMost

theorem atMost_mul {u v : UnpackedFloat} {b₁ b₂ : Int} (roundedLeft : IsRounded u)
    (roundedRight : IsRounded v) (left : AtMost b₁ u) (right : AtMost b₂ v)
    (least : minExponent < b₁ + b₂ + 54) : AtMost (b₁ + b₂ + 54) (mul .binary64 u v) := by
  cases u <;> cases v <;> try trivial
  next s₁ m₁ e₁ p₁ s₂ m₂ e₂ p₂ =>
  have small₁ : m₁ < 2 ^ 53 := roundedLeft.1
  have small₂ : m₂ < 2 ^ 53 := roundedRight.1
  have short : m₁ * m₂ < 2 ^ (53 + 53) := by
    rw [Nat.pow_add]
    exact Nat.mul_lt_mul'' small₁ small₂
  apply atMost_roundWithAccuracy
  · exact product_fits p₁ p₂ roundedLeft.2.2 roundedRight.2.2
  · refine targetOf_lt _ (Nat.mul_pos p₁ p₂).ne' short least ?_
    change e₁ ≤ b₁ at left
    change e₂ ≤ b₂ at right
    omega

theorem atMost_normalize {total exponent bound : Int} (digits : Nat) (sign : Sign)
    (short : total.natAbs < 2 ^ digits) (least : minExponent < bound)
    (room : digits + exponent - 53 < bound) :
    AtMost bound (UnpackedFloat.normalize .binary64 total exponent sign) := by
  unfold UnpackedFloat.normalize
  split
  · next negative =>
    have := Int.compare_eq_lt.mp negative
    exact atMost_round (by omega) (by omega) least room
  · trivial
  · next positive =>
    have := Int.compare_eq_gt.mp positive
    exact atMost_round (by omega) (by omega) least room

theorem natAbs_apply (sign : Sign) (n : Nat) : (sign.apply n).natAbs = n := by
  cases sign with
  | positive => rfl
  | negative => exact Int.natAbs_neg _

theorem atMost_add {u v : UnpackedFloat} {bound : Int} (roundedLeft : IsRounded u)
    (roundedRight : IsRounded v) (left : AtMost bound u) (right : AtMost bound v)
    (least : minExponent ≤ bound) : AtMost (bound + 2) (add .binary64 u v) := by
  have wider {w : UnpackedFloat} (small : AtMost bound w) : AtMost (bound + 2) w := by
    cases w with
    | zero => trivial
    | finite => exact Int.le_trans small (by omega)
    | notANumber | infinity => exact small
  cases u <;> cases v <;> try trivial
  · next s₁ s₂ =>
    change AtMost _ (if s₁ == s₂ then _ else _)
    split <;> trivial
  · exact wider right
  · exact wider left
  next s₁ m₁ e₁ p₁ s₂ m₂ e₂ p₂ =>
  change e₁ ≤ bound at left
  change e₂ ≤ bound at right
  have term {m : Nat} {e : Int} (small : m < 2 * leadingBit) (le : e ≤ max e₁ e₂) :
      m <<< (e - min e₁ e₂).toNat < 2 ^ (53 + (max e₁ e₂ - min e₁ e₂).toNat) := by
    rw [Nat.shiftLeft_eq, Nat.pow_add]
    refine Nat.lt_of_lt_of_le (Nat.mul_lt_mul_of_pos_right small (Nat.two_pow_pos _)) ?_
    exact Nat.mul_le_mul_left _ (Nat.pow_le_pow_right (by decide) (by omega))
  refine atMost_normalize (54 + (max e₁ e₂ - min e₁ e₂).toNat) _ ?_ (by omega) (by omega)
  have first := term roundedLeft.1 (Int.le_max_left e₁ e₂)
  have second := term roundedRight.1 (Int.le_max_right e₁ e₂)
  have sum := Int.natAbs_add_le (s₁.apply (m₁ <<< (e₁ - min e₁ e₂).toNat : Nat))
    (s₂.apply (m₂ <<< (e₂ - min e₁ e₂).toNat : Nat))
  rw [natAbs_apply, natAbs_apply] at sum
  refine Nat.lt_of_le_of_lt sum ?_
  rw [show 54 + (max e₁ e₂ - min e₁ e₂).toNat = 53 + (max e₁ e₂ - min e₁ e₂).toNat + 1 by omega,
    Nat.pow_succ]
  omega

theorem settled_of_atMost {u : UnpackedFloat} {bound : Int} (small : AtMost bound u)
    (most : bound ≤ 971) : settled u = u := by
  cases u with
  | notANumber | infinity | zero => rfl
  | finite => exact if_neg (Int.not_lt.mpr (Int.le_trans small most))

theorem atMost_add_unpack {bound : Int} (left : AtMost bound x.toModel.unpack)
    (right : AtMost bound y.toModel.unpack) (least : minExponent ≤ bound) (most : bound ≤ 969) :
    AtMost (bound + 2) (x + y).toModel.unpack := by
  have rounded := isRounded_add (isRounded_unpack x) (isRounded_unpack y)
  have small := atMost_add (isRounded_unpack x) (isRounded_unpack y) left right least
  have same : (x + y).toModel.unpack = _ := unpack_pack rounded
  rw [same, settled_of_atMost small (by omega)]
  exact small

theorem atMost_mul_unpack {b₁ b₂ : Int} (left : AtMost b₁ x.toModel.unpack)
    (right : AtMost b₂ y.toModel.unpack) (least : minExponent < b₁ + b₂ + 54)
    (most : b₁ + b₂ ≤ 917) : AtMost (b₁ + b₂ + 54) (x * y).toModel.unpack := by
  have rounded := isRounded_mul (isRounded_unpack x) (isRounded_unpack y)
  have small := atMost_mul (isRounded_unpack x) (isRounded_unpack y) left right least
  have same : (x * y).toModel.unpack = _ := unpack_pack rounded
  rw [same, settled_of_atMost small (by omega)]
  exact small

theorem isFinite_of_atMost {bound : Int} (small : AtMost bound x.toModel.unpack) :
    x.isFinite = true := by
  change x.toModel.unpack.isFinite = true
  cases unpacked : x.toModel.unpack <;> rw [unpacked] at small <;> trivial

end DocExamples.Binary64
