import DocExamples.Proofs.UnpackedDoubles
/-!
Arithmetic on doubles that are whole numbers.
-/
namespace DocExamples.Binary64

open Float.Model UnpackedFloat

/-! ### Whole numbers -/

section Rounding

variable {mantissa : Nat} {exponent : Int}

/-- A whole number, or not finite. -/
def IsIntegral : UnpackedFloat → Prop
  | .finite _ mantissa exponent _ => 2 ^ (-exponent).toNat ∣ mantissa
  | _ => True

theorem isIntegral_assembled {sign : Sign} (whole : 2 ^ (-exponent).toNat ∣ mantissa) :
    IsIntegral (assembled sign mantissa exponent) := by
  unfold assembled
  split
  · trivial
  · exact whole

theorem dvd_of_nonneg (positive : 0 ≤ exponent) : 2 ^ (-exponent).toNat ∣ mantissa := by
  rw [show (-exponent).toNat = 0 by omega]
  exact Nat.one_dvd _

/-- Rounding takes whole numbers to whole numbers: below the units there is nothing to cut. -/
theorem isIntegral_roundWithAccuracy (sign : Sign) (fits : exponent ≤ targetOf mantissa exponent)
    (whole : 2 ^ (-exponent).toNat ∣ mantissa) :
    IsIntegral (roundWithAccuracy .binary64 sign mantissa exponent .exact) := by
  have divided : 2 ^ (-targetOf mantissa exponent).toNat ∣ roundedAt mantissa exponent .exact := by
    by_cases units : 0 ≤ targetOf mantissa exponent
    · exact dvd_of_nonneg units
    · have apart : (-exponent).toNat =
          (-targetOf mantissa exponent).toNat + (targetOf mantissa exponent - exponent).toNat := by
        omega
      rw [apart, Nat.pow_add] at whole
      have exact' : roundedAt mantissa exponent .exact =
          mantissa / 2 ^ (targetOf mantissa exponent - exponent).toNat := by
        have cut := shiftRight_of_dvd (Nat.dvd_trans (Nat.dvd_mul_left _ _) whole)
        exact congrArg ExtendedMantissa.roundedMantissa cut
      rw [exact']
      exact Nat.dvd_div_of_mul_dvd (Nat.mul_comm _ _ ▸ whole)
  rcases roundWithAccuracy_eq sign .exact fits with ⟨result, -⟩ | ⟨carries, result⟩
  · rw [result]
    exact isIntegral_assembled divided
  · rw [result]
    apply isIntegral_assembled
    by_cases units : 0 ≤ targetOf mantissa exponent + 1
    · exact dvd_of_nonneg units
    · have next : (-targetOf mantissa exponent).toNat =
          (-(targetOf mantissa exponent + 1)).toNat + 1 := by omega
      rw [carries, next, Nat.pow_succ', Nat.mul_dvd_mul_iff_left (by decide)] at divided
      exact divided

end Rounding

/-! ### Sums and products -/

theorem whole_shiftLeft {mantissa : Nat} {exponent : Int} (whole : 2 ^ (-exponent).toNat ∣ mantissa)
    (n : Nat) : 2 ^ (-(exponent - n)).toNat ∣ mantissa <<< n := by
  rw [Nat.shiftLeft_eq]
  have fewer : (-(exponent - n)).toNat ≤ (-exponent).toNat + n := by omega
  refine Nat.dvd_trans (Nat.pow_dvd_pow 2 fewer) ?_
  rw [Nat.pow_add]
  exact Nat.mul_dvd_mul_right whole _

theorem isIntegral_round {mantissa : Nat} {exponent : Int} {sign : Sign} (some : mantissa ≠ 0)
    (whole : 2 ^ (-exponent).toNat ∣ mantissa) :
    IsIntegral (round .binary64 sign mantissa exponent) := by
  obtain ⟨n, fits, same⟩ := exists_of_round sign exponent some
  rw [same]
  exact isIntegral_roundWithAccuracy sign fits (whole_shiftLeft whole n)

theorem isIntegral_normalize {total exponent : Int} (sign : Sign)
    (whole : 2 ^ (-exponent).toNat ∣ total.natAbs) :
    IsIntegral (UnpackedFloat.normalize .binary64 total exponent sign) := by
  unfold UnpackedFloat.normalize
  split
  · next negative =>
    have := Int.compare_eq_lt.mp negative
    refine isIntegral_round (by omega) ?_
    rwa [show (-total).toNat = total.natAbs by omega]
  · trivial
  · next positive =>
    have := Int.compare_eq_gt.mp positive
    refine isIntegral_round (by omega) ?_
    rwa [show total.toNat = total.natAbs by omega]

theorem isIntegral_add {u v : UnpackedFloat} (left : IsIntegral u) (right : IsIntegral v) :
    IsIntegral (add .binary64 u v) := by
  refine add_cases trivial (fun _ => trivial) (fun _ => trivial) left right ?_
  rintro s₁ m₁ e₁ p₁ s₂ m₂ e₂ p₂ rfl rfl
  apply isIntegral_normalize
  have term {m : Nat} {e : Int} (whole : 2 ^ (-e).toNat ∣ m) (s : Sign) (least : min e₁ e₂ ≤ e) :
      ((2 ^ (-min e₁ e₂).toNat : Nat) : Int) ∣ s.apply (m <<< (e - min e₁ e₂).toNat : Nat) := by
    have shifted := whole_shiftLeft whole (e - min e₁ e₂).toNat
    rw [show e - ((e - min e₁ e₂).toNat : Int) = min e₁ e₂ by omega] at shifted
    cases s with
    | positive => exact Int.natCast_dvd_natCast.mpr shifted
    | negative => exact Int.dvd_neg.mpr (Int.natCast_dvd_natCast.mpr shifted)
  exact Int.natCast_dvd.mp
    (Int.dvd_add (term left s₁ (Int.min_le_left _ _)) (term right s₂ (Int.min_le_right _ _)))

theorem isIntegral_mul {u v : UnpackedFloat} (roundedLeft : IsRounded u) (roundedRight : IsRounded v)
    (left : IsIntegral u) (right : IsIntegral v) : IsIntegral (mul .binary64 u v) := by
  cases u <;> cases v <;> try trivial
  next s₁ m₁ e₁ p₁ s₂ m₂ e₂ p₂ =>
  apply isIntegral_roundWithAccuracy
  · exact product_fits p₁ p₂ roundedLeft.2.2 roundedRight.2.2
  · have fewer : (-(e₁ + e₂)).toNat ≤ (-e₁).toNat + (-e₂).toNat := by omega
    refine Nat.dvd_trans (Nat.pow_dvd_pow 2 fewer) ?_
    rw [Nat.pow_add]
    exact Nat.mul_dvd_mul left right

/-! ### Doubles -/

/-- A whole number. -/
def IsWhole (x : Float) : Prop :=
  ∃ negative mantissa exponent, parts x = .finite negative mantissa exponent ∧
    2 ^ (-exponent).toNat ∣ mantissa

/-- A whole number, unless it is infinite or not a number. -/
def WholeIfFinite (x : Float) : Prop :=
  ∀ negative mantissa exponent, parts x = .finite negative mantissa exponent →
    2 ^ (-exponent).toNat ∣ mantissa

variable {x y : Float}

theorem isWhole_iff : IsWhole x ↔ x.isFinite = true ∧ WholeIfFinite x := by
  rw [isFinite_iff]
  constructor
  · rintro ⟨negative, mantissa, exponent, same, whole⟩
    refine ⟨⟨_, _, _, same⟩, fun negative' mantissa' exponent' same' => ?_⟩
    rw [same] at same'
    cases same'
    exact whole
  · rintro ⟨⟨negative, mantissa, exponent, same⟩, whole⟩
    exact ⟨_, _, _, same, whole _ _ _ same⟩

theorem wholeIfFinite_iff : WholeIfFinite x ↔ IsIntegral x.toModel.unpack := by
  unfold WholeIfFinite
  rw [parts_eq]
  cases x.toModel.unpack with
  | notANumber | infinity => exact ⟨fun _ => trivial, fun _ _ _ _ same => nomatch same⟩
  | zero =>
    refine ⟨fun _ => trivial, fun _ _ _ _ same => ?_⟩
    cases same
    exact Nat.dvd_zero _
  | finite sign mantissa exponent =>
    constructor
    · exact fun whole => whole _ _ _ rfl
    · intro whole _ _ _ same
      cases same
      exact whole

theorem isIntegral_settled {u : UnpackedFloat} (whole : IsIntegral u) : IsIntegral (settled u) := by
  unfold settled
  split
  · split
    · trivial
    · exact whole
  · exact whole

/-- A result of arithmetic that is whole before it is packed is a whole double. -/
theorem wholeIfFinite_pack {u : UnpackedFloat} (rounded : IsRounded u) (whole : IsIntegral u) :
    WholeIfFinite (.ofModel (Float.Model.pack u)) := by
  rw [wholeIfFinite_iff]
  change IsIntegral (Float.Model.pack u).unpack
  rw [unpack_pack rounded]
  exact isIntegral_settled whole

theorem isIntegral_neg {u : UnpackedFloat} (whole : IsIntegral u) : IsIntegral u.neg := by
  cases u <;> exact whole

namespace WholeIfFinite

theorem add (left : WholeIfFinite x) (right : WholeIfFinite y) : WholeIfFinite (x + y) := by
  rw [wholeIfFinite_iff] at left right
  exact wholeIfFinite_pack (isRounded_add (isRounded_unpack x) (isRounded_unpack y))
    (isIntegral_add left right)

theorem sub (left : WholeIfFinite x) (right : WholeIfFinite y) : WholeIfFinite (x - y) := by
  rw [wholeIfFinite_iff] at left right
  have same : x - y = .ofModel (Float.Model.pack
      (UnpackedFloat.add .binary64 x.toModel.unpack y.toModel.unpack.neg)) := by
    rw [← sub_eq_add_neg]
    rfl
  rw [same]
  exact wholeIfFinite_pack (isRounded_add (isRounded_unpack x) (isRounded_neg (isRounded_unpack y)))
    (isIntegral_add left (isIntegral_neg right))

theorem mul (left : WholeIfFinite x) (right : WholeIfFinite y) : WholeIfFinite (x * y) := by
  rw [wholeIfFinite_iff] at left right
  exact wholeIfFinite_pack (isRounded_mul (isRounded_unpack x) (isRounded_unpack y))
    (isIntegral_mul (isRounded_unpack x) (isRounded_unpack y) left right)

end WholeIfFinite

theorem isWhole_unpack :
    IsWhole x ↔ x.toModel.unpack.isFinite = true ∧ IsIntegral x.toModel.unpack := by
  rw [isWhole_iff, wholeIfFinite_iff]
  rfl

theorem IsWhole.neg (whole : IsWhole x) : IsWhole (-x) := by
  rw [isWhole_unpack] at *
  rw [unpack_neg]
  cases unpacked : x.toModel.unpack <;> rw [unpacked] at whole <;> exact whole

theorem IsWhole.abs (whole : IsWhole x) : IsWhole x.abs := by
  rw [isWhole_unpack] at *
  rw [unpack_abs]
  cases unpacked : x.toModel.unpack <;> rw [unpacked] at whole <;> exact whole

theorem WholeIfFinite.neg (whole : WholeIfFinite x) : WholeIfFinite (-x) := by
  rw [wholeIfFinite_iff] at *
  rw [unpack_neg]
  exact isIntegral_neg whole

/-! ### Numbers near whole ones -/

theorem nonneg_of_bits {mantissa : Nat} {exponent : Int} (finite : IsFinite mantissa exponent)
    (large : 1075 * leadingBit ≤ bitsFor mantissa exponent) : 0 ≤ exponent := by
  have below := finite.mantissa_lt
  have least := finite.least
  rw [bitsFor] at large
  rw [minExponent] at *
  rw [leadingBit] at *
  omega

theorem nearestBits_zero : nearestBits 0 1 = bitsFor 0 minExponent := by decide

theorem parts_infinity : parts (withSign false (2047 * leadingBit)) = .infinite false := by
  decide +kernel

/-- From `2 ^ 53` on, the double nearest to a natural number has an exponent that is not negative,
if it is finite. -/
theorem nonneg_of_large {n : Nat} (large : ¬n < 2 ^ 53) {sign : Bool} {mantissa : Nat}
    {exponent : Int} (same : parts (ofRatio false n 1) = .finite sign mantissa exponent) :
    0 ≤ exponent := by
  have zero : n ≠ 0 := by omega
  have digits : 53 ≤ n.log2 := (Nat.le_log2 zero).mpr (Nat.le_of_not_lt large)
  have bits : 1075 * leadingBit ≤ nearestBits n 1 := by
    unfold nearestBits
    rw [if_neg zero, exponentFor_whole zero]
    dsimp only
    refine Nat.le_min.mpr ⟨Nat.le_trans ?_ (Nat.le_add_right _ _), by decide⟩
    apply Nat.mul_le_mul_right
    rw [minExponent]
    omega
  rcases Nat.lt_or_eq_of_le (nearestBits_le n 1) with below | top
  · obtain ⟨m, e, made⟩ := exists_parts below
    rw [ofRatio, made] at same
    cases same
    obtain ⟨finite, back⟩ := of_parts made
    have back := congrArg (fun x => x.toBits.toNat) back
    rw [toBits_withSign (bitsFor_le finite), toBits_withSign (nearestBits_le n 1)] at back
    exact nonneg_of_bits finite (back ▸ bits)
  · rw [ofRatio, top, parts_infinity] at same
    cases same

/-- The double nearest to a natural number is whole, or infinite. -/
theorem wholeIfFinite_ofRatio (negative : Bool) (n : Nat) : WholeIfFinite (ofRatio negative n 1) := by
  have positive : WholeIfFinite (ofRatio false n 1) := by
    intro sign mantissa exponent same
    by_cases zero : n = 0
    · have finite : IsFinite 0 minExponent :=
        ⟨by decide, Int.le_refl _, by decide, fun apart => absurd rfl apart⟩
      rw [zero, ofRatio, nearestBits_zero, parts_withSign finite] at same
      cases same
      exact Nat.dvd_zero _
    by_cases small : n < 2 ^ 53
    · rw [parts_ofRatio_whole zero small] at same
      cases same
      have digits : n.log2 < 53 := (Nat.log2_lt zero).mpr small
      rw [Nat.shiftLeft_eq, show (-((n.log2 : Int) - 52)).toNat = 52 - n.log2 by omega]
      exact Nat.dvd_mul_left _ _
    · exact dvd_of_nonneg (nonneg_of_large small same)
  cases negative with
  | false => exact positive
  | true =>
    rw [← neg_ofRatio]
    exact positive.neg

theorem isFinite_ofRatio {n : Nat} (small : n < 2 ^ 64) (negative : Bool) :
    (ofRatio negative n 1).isFinite = true := by
  have positive : (ofRatio false n 1).isFinite = true := by
    obtain ⟨mantissa, exponent, made⟩ := exists_parts_ofRatio small
    exact isFinite_iff.mpr ⟨_, _, _, made⟩
  cases negative with
  | false => exact positive
  | true =>
    rw [← neg_ofRatio]
    change (-_ : Float).toModel.unpack.isFinite = true
    rw [unpack_neg]
    change (ofRatio false n 1).toModel.unpack.isFinite = true at positive
    cases unpacked : (ofRatio false n 1).toModel.unpack <;> rw [unpacked] at positive <;>
      exact positive

theorem isWhole_ofRatio {n : Nat} (small : n < 2 ^ 64) (negative : Bool) :
    IsWhole (ofRatio negative n 1) :=
  isWhole_iff.mpr ⟨isFinite_ofRatio small negative, wholeIfFinite_ofRatio negative n⟩

theorem IsWhole.wholeIfFinite (whole : IsWhole x) : WholeIfFinite x := (isWhole_iff.mp whole).2

theorem isWhole_zero : IsWhole 0.0 := ⟨false, 0, minExponent, by decide +kernel, Nat.dvd_zero _⟩

theorem isWhole_one : IsWhole 1.0 := ⟨false, leadingBit, -52, by decide +kernel, by decide⟩

theorem isWhole_ofBool (b : Bool) : IsWhole (ofBool b) := by
  cases b with
  | false => exact isWhole_zero
  | true => exact isWhole_one

theorem isWhole_ofInt (i : Int64) : IsWhole (ofInt i.toInt) := by
  have low := i.le_toInt
  have high := i.toInt_lt
  exact isWhole_ofRatio (by omega) _

/-- Whole numbers, infinities and what is not a number stay as they are. -/
theorem roundWith_of_whole (round : Bool → Nat → Nat → Nat) (whole : WholeIfFinite x) :
    roundWith round x = x := by
  unfold roundWith
  split
  · next negative mantissa exponent same =>
    dsimp only
    rw [Nat.one_shiftLeft, if_pos (Nat.mod_eq_zero_of_dvd (whole _ _ _ same))]
  · rfl

theorem wholeIfFinite_roundWith (round : Bool → Nat → Nat → Nat) (x : Float) :
    WholeIfFinite (roundWith round x) := by
  unfold roundWith
  split
  · next negative mantissa exponent same =>
    dsimp only
    split
    · next exact' =>
      intro _ _ _ same'
      rw [same] at same'
      cases same'
      exact Nat.dvd_of_mod_eq_zero (Nat.one_shiftLeft _ ▸ exact')
    · exact wholeIfFinite_ofRatio negative _
  · next special =>
    intro _ _ _ same
    exact absurd same (special _ _ _)

/-- What is cut toward zero is a whole number just if it is finite. -/
theorem isWhole_trunc_iff : IsWhole (trunc x) ↔ x.isFinite = true := by
  constructor
  · intro whole
    obtain ⟨negative, mantissa, exponent, same, -⟩ := whole
    unfold trunc roundWith at same
    split at same
    · next made => exact isFinite_iff.mpr ⟨_, _, _, made⟩
    · exact isFinite_iff.mpr ⟨_, _, _, same⟩
  · intro finite
    refine isWhole_iff.mpr ⟨?_, wholeIfFinite_roundWith _ x⟩
    obtain ⟨negative, mantissa, exponent, same⟩ := isFinite_iff.mp finite
    have below := (of_parts same).1.mantissa_lt
    unfold trunc roundWith
    rw [same]
    dsimp only
    split
    · exact finite
    · refine isFinite_ofRatio (Nat.lt_of_le_of_lt (Nat.div_le_self _ _) ?_) negative
      rw [leadingBit] at below
      omega

theorem wholeIfFinite_sum {xs : List Float} (whole : ∀ x ∈ xs, WholeIfFinite x) :
    WholeIfFinite (sum xs) := by
  have added (xs : List Float) (start : Float) (first : WholeIfFinite start)
      (whole : ∀ x ∈ xs, WholeIfFinite x) : WholeIfFinite (xs.foldl (· + ·) start) := by
    induction xs generalizing start with
    | nil => exact first
    | cons x rest ih =>
      obtain ⟨here, others⟩ := List.forall_mem_cons.mp whole
      exact ih _ (first.add here) others
  exact added xs _ isWhole_zero.wholeIfFinite.neg whole

/-! ### Numbers of sixty-four bits -/

theorem atMost_ofRatio {n : Nat} (small : n < 2 ^ 64) (negative : Bool) :
    AtMost 13 (ofRatio negative n 1).toModel.unpack := by
  have positive : AtMost 13 (ofRatio false n 1).toModel.unpack := by
    obtain ⟨mantissa, exponent, made⟩ := exists_parts_ofRatio small
    obtain ⟨finite, back⟩ := of_parts made
    have bits := nearestBits_le_of_lt small
    have back := congrArg (fun x => x.toBits.toNat) back
    rw [ofRatio, toBits_withSign (bitsFor_le finite), toBits_withSign (nearestBits_le n 1)] at back
    have low : exponent ≤ 13 := by
      rw [← back, bitsFor, leadingBit] at bits
      rw [minExponent] at bits
      omega
    rw [parts_eq] at made
    cases unpacked : (ofRatio false n 1).toModel.unpack with
    | zero => trivial
    | notANumber | infinity =>
      rw [unpacked] at made
      cases made
    | finite =>
      rw [unpacked] at made
      exact Int.le_trans (Int.le_of_eq (Parts.finite.inj made).2.2) low
  cases negative with
  | false => exact positive
  | true =>
    rw [← neg_ofRatio, unpack_neg]
    cases unpacked : (ofRatio false n 1).toModel.unpack <;> rw [unpacked] at positive <;>
      exact positive

/-- Numbers at equal distances, given by whole numbers of sixty-four bits. -/
theorem isWhole_spaced {start step : Float} (wholeStart : IsWhole start) (wholeStep : IsWhole step)
    (smallStart : AtMost 13 start.toModel.unpack) (smallStep : AtMost 13 step.toModel.unpack)
    {k : Nat} (small : k < 2 ^ 64) : IsWhole (start + ofNat k * step) := by
  have wider : AtMost 80 start.toModel.unpack := by
    cases unpacked : start.toModel.unpack <;> rw [unpacked] at smallStart
    case finite => exact Int.le_trans smallStart (by decide)
    all_goals exact smallStart
  have product := atMost_mul_unpack (atMost_ofRatio small false) smallStep (by decide) (by decide)
  have total := atMost_add_unpack wider product (by decide) (by decide)
  refine isWhole_iff.mpr ⟨isFinite_of_atMost total, wholeStart.wholeIfFinite.add ?_⟩
  exact (wholeIfFinite_ofRatio false k).mul wholeStep.wholeIfFinite

end DocExamples.Binary64
