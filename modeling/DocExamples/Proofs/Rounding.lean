import DocExamples.Decimal.Shortest
import DocExamples.Proofs.Negation
/-!
Doubles as exact numbers. The parts of a double determine its bits, and every fraction in the
rounding interval of a double has that double as its nearest one.
-/
namespace DocExamples

namespace Binary64

/-! ### Parts and bits -/

/-- The parts of a finite double: the mantissa has at most fifty-three binary digits, and exactly so
many above the least exponent. -/
structure IsFinite (mantissa : Nat) (exponent : Int) : Prop where
  mantissa_lt : mantissa < 2 * leadingBit
  least : minExponent ≤ exponent
  most : exponent ≤ 971
  leading : exponent ≠ minExponent → leadingBit ≤ mantissa

/-- The bits of the positive double with these parts. The leading bit of a normal mantissa carries
into the exponent's field. -/
def bitsFor (mantissa : Nat) (exponent : Int) : Nat :=
  (exponent - minExponent).toNat * leadingBit + mantissa

theorem toNat_field (bits : UInt64) :
    (bits >>> 52 &&& 0x7ff).toNat = bits.toNat / 2 ^ 52 % 2 ^ 11 := by
  rw [UInt64.toNat_and, UInt64.toNat_shiftRight]
  have mask : (0x7ff : UInt64).toNat = 2 ^ 11 - 1 := rfl
  rw [mask, Nat.and_two_pow_sub_one_eq_mod, Nat.shiftRight_eq_div_pow]
  rfl

theorem toNat_fraction (bits : UInt64) :
    (bits &&& 0xfffffffffffff).toNat = bits.toNat % 2 ^ 52 := by
  have mask : (0xfffffffffffff : UInt64).toNat = 2 ^ 52 - 1 := rfl
  rw [UInt64.toNat_and, mask, Nat.and_two_pow_sub_one_eq_mod]

theorem isNegative_iff (bits : UInt64) :
    (bits >>> 63 == 1) = true ↔ bits.toNat / 2 ^ 63 = 1 := by
  have shifted : (bits >>> 63).toNat = bits.toNat / 2 ^ 63 := by
    rw [UInt64.toNat_shiftRight, Nat.shiftRight_eq_div_pow]
    rfl
  rw [beq_iff_eq, ← UInt64.toNat_inj, shifted]
  rfl

/-- A number of at most sixty-four binary digits by its sign, its exponent's field and its
fraction. -/
theorem toNat_split (bits : UInt64) :
    bits.toNat = bits.toNat / 2 ^ 63 * 2 ^ 63 + bits.toNat / 2 ^ 52 % 2 ^ 11 * 2 ^ 52 +
      bits.toNat % 2 ^ 52 := by
  have bound := bits.toNat_lt
  omega

theorem withSign_toBits {x : Float} {negative : Bool} {magnitude : Nat}
    (sign : negative = (x.toBits >>> 63 == 1))
    (rest : magnitude = x.toBits.toNat / 2 ^ 52 % 2 ^ 11 * 2 ^ 52 + x.toBits.toNat % 2 ^ 52) :
    withSign negative magnitude = x := by
  have split := toNat_split x.toBits
  have bound := x.toBits.toNat_lt
  have whole : (if negative then magnitude + signBit else magnitude) = x.toBits.toNat := by
    have isNegative := isNegative_iff x.toBits
    rw [← sign] at isNegative
    cases negative with
    | true =>
      have top := isNegative.mp rfl
      rw [if_pos rfl, signBit]
      omega
    | false =>
      have top : x.toBits.toNat / 2 ^ 63 ≠ 1 := fun top => Bool.false_ne_true (isNegative.mpr top)
      rw [if_neg Bool.false_ne_true]
      omega
  rw [withSign, whole, UInt64.ofNat_toNat, Float.ofBits_toBits]

/-- A finite double is made of its parts. -/
theorem of_parts {x : Float} {negative : Bool} {mantissa : Nat} {exponent : Int}
    (finite : parts x = .finite negative mantissa exponent) :
    IsFinite mantissa exponent ∧ withSign negative (bitsFor mantissa exponent) = x := by
  have fractionBound : x.toBits.toNat % 2 ^ 52 < 2 ^ 52 := Nat.mod_lt _ (by decide)
  have fieldBound : x.toBits.toNat / 2 ^ 52 % 2 ^ 11 < 2 ^ 11 := Nat.mod_lt _ (by decide)
  have rest := @withSign_toBits x
  rw [parts] at finite
  simp only [toNat_field, toNat_fraction, beq_iff_eq] at finite
  generalize x.toBits.toNat / 2 ^ 52 % 2 ^ 11 = field at finite fieldBound rest
  generalize x.toBits.toNat % 2 ^ 52 = fraction at finite fractionBound rest
  split at finite
  · split at finite <;> cases finite
  · next notSpecial =>
    split at finite
    · next subnormal =>
      cases finite
      constructor
      · refine ⟨?_, Int.le_refl _, by decide, fun apart => absurd rfl apart⟩
        rw [leadingBit]
        omega
      · refine rest rfl ?_
        rw [bitsFor, subnormal, Int.sub_self]
        rfl
    · next normal =>
      cases finite
      constructor
      · constructor
        · rw [leadingBit]
          omega
        · rw [minExponent]
          omega
        · omega
        · intro _
          exact Nat.le_add_left _ _
      · refine rest rfl ?_
        have shifted : ((field : Int) - 1075 - minExponent).toNat = field - 1 := by
          rw [minExponent]
          omega
        rw [bitsFor, shifted, leadingBit]
        omega

theorem bitsFor_lt {mantissa : Nat} {exponent : Int} (finite : IsFinite mantissa exponent) :
    bitsFor mantissa exponent < 2047 * leadingBit := by
  have below := finite.mantissa_lt
  have least := finite.least
  have most := finite.most
  rw [minExponent] at least
  rw [leadingBit] at below
  rw [bitsFor, minExponent, leadingBit]
  omega

theorem bitsFor_le {mantissa : Nat} {exponent : Int} (finite : IsFinite mantissa exponent) :
    bitsFor mantissa exponent ≤ 2047 * leadingBit := Nat.le_of_lt (bitsFor_lt finite)

theorem bitsFor_inj {m n : Nat} {e f : Int} (first : IsFinite m e) (second : IsFinite n f)
    (same : bitsFor m e = bitsFor n f) : m = n ∧ e = f := by
  obtain ⟨mantissaLt, least, -, leading⟩ := first
  obtain ⟨mantissaLt', least', -, leading'⟩ := second
  simp only [bitsFor, leadingBit, minExponent] at *
  omega

/-- Bits below those of infinity are those of a finite double. -/
theorem exists_parts {bits : Nat} (number : bits < 2047 * leadingBit) :
    ∃ mantissa exponent, parts (withSign false bits) = .finite false mantissa exponent := by
  have same := toBits_withSign (Nat.le_of_lt number)
  rw [leadingBit] at number
  have positive : ((withSign false bits).toBits >>> 63 == 1) = false := by
    rw [Bool.eq_false_iff, ne_eq, isNegative_iff, same]
    omega
  rw [parts]
  simp only [toNat_field, toNat_fraction, same, positive, beq_iff_eq]
  split
  · omega
  · split
    · exact ⟨_, _, rfl⟩
    · exact ⟨_, _, rfl⟩

theorem parts_withSign {mantissa : Nat} {exponent : Int} (finite : IsFinite mantissa exponent) :
    parts (withSign false (bitsFor mantissa exponent)) = .finite false mantissa exponent := by
  obtain ⟨m, e, made⟩ := exists_parts (bitsFor_lt finite)
  obtain ⟨isFinite, back⟩ := of_parts made
  have bits := congrArg (fun x => x.toBits.toNat) back
  rw [toBits_withSign (bitsFor_le isFinite), toBits_withSign (bitsFor_le finite)] at bits
  obtain ⟨rfl, rfl⟩ := bitsFor_inj isFinite finite bits
  exact made

/-! ### Powers of two and ratios -/

theorem two_zpow_pos (q : Int) : (0 : ℚ) < 2 ^ q := zpow_pos (by norm_num) q

theorem two_zpow_lt {a b : Int} : (2 : ℚ) ^ a < 2 ^ b ↔ a < b :=
  zpow_lt_zpow_iff_right₀ (by norm_num)

/-- The two shifts by a number of places, only one of which moves anything. -/
theorem zpow_eq_div (base : ℚ) (some : base ≠ 0) (q : Int) :
    base ^ q = base ^ q.toNat / base ^ (-q).toNat := by
  have parts : q = (q.toNat : Int) - ((-q).toNat : Int) := by omega
  conv_lhs => rw [parts]
  rw [zpow_sub₀ some, zpow_natCast, zpow_natCast]

theorem shifted_ratio (num den : Nat) (q : Int) :
    ((num <<< (-q).toNat : Nat) : ℚ) / ((den <<< q.toNat : Nat) : ℚ) = num / den / 2 ^ q := by
  have up : (2 : ℚ) ^ (-q).toNat ≠ 0 := pow_ne_zero _ (by norm_num)
  have down : (2 : ℚ) ^ q.toNat ≠ 0 := pow_ne_zero _ (by norm_num)
  rw [zpow_eq_div 2 (by norm_num) q, Nat.shiftLeft_eq, Nat.shiftLeft_eq]
  push_cast
  field_simp

/-! ### Nearest doubles -/

/-- The numbers that round to a natural number, a half to the even one. -/
structure Rounds (n : Nat) (r : ℚ) : Prop where
  lower : (n : ℚ) - 1 / 2 < r ∨ n % 2 = 0 ∧ (n : ℚ) - 1 / 2 = r
  upper : r < (n : ℚ) + 1 / 2 ∨ n % 2 = 0 ∧ r = (n : ℚ) + 1 / 2

theorem roundDiv_eq_of_le {num den n : Nat}
    (lower : 2 * (den * n) < 2 * num + den ∨ n % 2 = 0 ∧ 2 * (den * n) = 2 * num + den)
    (upper : 2 * num < 2 * (den * n) + den ∨ n % 2 = 0 ∧ 2 * num = 2 * (den * n) + den)
    (positive : 0 < den) : roundDiv num den = n := by
  have split := Nat.div_add_mod num den
  have bound := Nat.mod_lt num positive
  unfold roundDiv
  dsimp only
  generalize num / den = quotient at split ⊢
  generalize num % den = rest at split bound ⊢
  -- The number is the quotient or the one after it.
  have notLess : quotient ≤ n := by
    by_contra less
    have step : den * (n + 1) ≤ den * quotient := Nat.mul_le_mul_left den (by omega)
    rw [Nat.mul_succ] at step
    omega
  have notMore : n ≤ quotient + 1 := by
    by_contra more
    have step : den * (quotient + 2) ≤ den * n := Nat.mul_le_mul_left den (by omega)
    rw [Nat.mul_add] at step
    omega
  rcases Nat.eq_or_lt_of_le notLess with rfl | less
  · split
    · rfl
    · split <;> omega
  · obtain rfl : n = quotient + 1 := by omega
    rw [Nat.mul_succ] at lower upper
    split
    · omega
    · split <;> omega

theorem Rounds.roundDiv_eq {num den n : Nat} {r : ℚ} (rounds : Rounds n r) (positive : 0 < den)
    (ratio : (num : ℚ) / den = r) : roundDiv num den = n := by
  have positiveDen : (0 : ℚ) < den := by exact_mod_cast positive
  have whole : (num : ℚ) = r * den := by rw [← ratio, div_mul_cancel₀ _ positiveDen.ne']
  apply roundDiv_eq_of_le _ _ positive
  · refine rounds.lower.imp (fun below => ?_) fun ⟨even, same⟩ => ⟨even, ?_⟩
    · have scaled : ((n : ℚ) - 1 / 2) * den < r * den := mul_lt_mul_of_pos_right below positiveDen
      have cast : (2 * (den * n) : ℚ) < 2 * num + den := by linarith
      exact_mod_cast cast
    · have cast : (2 * (den * n) : ℚ) = 2 * num + den := by
        rw [whole, ← same]
        ring
      exact_mod_cast cast
  · refine rounds.upper.imp (fun above => ?_) fun ⟨even, same⟩ => ⟨even, ?_⟩
    · have scaled : r * den < ((n : ℚ) + 1 / 2) * den := mul_lt_mul_of_pos_right above positiveDen
      have cast : (2 * num : ℚ) < 2 * (den * n) + den := by linarith
      exact_mod_cast cast
    · have cast : (2 * num : ℚ) = 2 * (den * n) + den := by
        rw [whole, same]
        ring
      exact_mod_cast cast

/-- The quotient of two numbers is within a factor of two of that of their leading bits. -/
theorem ratio_near_log {num den : Nat} (someNum : num ≠ 0) (someDen : den ≠ 0) :
    (2 : ℚ) ^ ((num.log2 : Int) - den.log2 - 1) < num / den ∧
      (num : ℚ) / den < 2 ^ ((num.log2 : Int) - den.log2 + 1) := by
  have positiveDen : (0 : ℚ) < den := by exact_mod_cast Nat.pos_of_ne_zero someDen
  have numLow : (2 : ℚ) ^ num.log2 ≤ num := by exact_mod_cast Nat.log2_self_le someNum
  have denLow : (2 : ℚ) ^ den.log2 ≤ den := by exact_mod_cast Nat.log2_self_le someDen
  have numHigh : (num : ℚ) < 2 ^ num.log2 * 2 := by exact_mod_cast Nat.lt_log2_self
  have denHigh : (den : ℚ) < 2 ^ den.log2 * 2 := by exact_mod_cast Nat.lt_log2_self
  have powDen : (0 : ℚ) < 2 ^ den.log2 := by positivity
  have powNum : (0 : ℚ) < 2 ^ num.log2 := by positivity
  have two : (2 : ℚ) ≠ 0 := by norm_num
  rw [zpow_sub₀ two, zpow_add₀ two, zpow_sub₀ two, zpow_one, zpow_natCast, zpow_natCast]
  constructor
  · rw [div_div, div_lt_div_iff₀ (by positivity) positiveDen]
    exact mul_lt_mul' numLow denHigh (by positivity) (by linarith)
  · rw [div_mul_eq_mul_div, div_lt_div_iff₀ positiveDen powDen]
    exact mul_lt_mul numHigh denLow powDen (by positivity)

theorem exponentFor_eq {num den : Nat} (someNum : num ≠ 0) (someDen : den ≠ 0) {q : Int}
    (lower : (2 : ℚ) ^ (q + 52) ≤ num / den) (upper : (num : ℚ) / den < 2 ^ (q + 53)) :
    exponentFor num den = max q minExponent := by
  obtain ⟨low, high⟩ := ratio_near_log someNum someDen
  have positiveDen : (0 : ℚ) < den := by exact_mod_cast Nat.pos_of_ne_zero someDen
  unfold exponentFor
  dsimp only
  generalize isGuess : (num.log2 : Int) - den.log2 - 53 = guess
  have atMost : q ≤ guess + 1 := by
    have := two_zpow_lt.mp (lower.trans_lt high)
    omega
  have atLeast : guess ≤ q := by
    have := two_zpow_lt.mp (low.trans upper)
    omega
  have test : den <<< guess.toNat <<< 53 ≤ num <<< (-guess).toNat ↔
      (2 : ℚ) ^ (guess + 53) ≤ num / den := by
    have positive : 0 < den <<< guess.toNat := by
      rw [Nat.shiftLeft_eq]
      positivity
    have positive : (0 : ℚ) < (den <<< guess.toNat : Nat) := by exact_mod_cast positive
    have scaled := shifted_ratio num den guess
    rw [zpow_add₀ (by norm_num), ← le_div_iff₀' (two_zpow_pos guess), ← scaled,
      le_div_iff₀ positive, Nat.shiftLeft_eq _ 53, mul_comm]
    exact_mod_cast Iff.rfl
  split
  · next holds =>
    have := two_zpow_lt.mp ((test.mp holds).trans_lt upper)
    rw [show q = guess + 1 by omega]
  · next fails =>
    have below := not_le.mp fun holds => fails (test.mpr holds)
    have := two_zpow_lt.mp (lower.trans_lt below)
    rw [show q = guess by omega]

/-! ### Whole numbers -/

section

variable {n : Nat}

theorem exponentFor_whole (some : n ≠ 0) : exponentFor n 1 = (n.log2 : Int) - 52 := by
  have low : (2 : ℚ) ^ n.log2 ≤ n := by exact_mod_cast Nat.log2_self_le some
  have high : (n : ℚ) < 2 ^ (n.log2 + 1) := by exact_mod_cast Nat.lt_log2_self
  have lower : (2 : ℚ) ^ ((n.log2 : Int) - 52 + 52) ≤ n / (1 : Nat) := by
    rw [sub_add_cancel, zpow_natCast, Nat.cast_one, div_one]
    exact low
  have upper : (n : ℚ) / (1 : Nat) < 2 ^ ((n.log2 : Int) - 52 + 53) := by
    rw [show (n.log2 : Int) - 52 + 53 = (n.log2 + 1 : Nat) by push_cast; ring, zpow_natCast,
      Nat.cast_one, div_one]
    exact high
  rw [exponentFor_eq some one_ne_zero lower upper, minExponent]
  omega

theorem roundDiv_one (num : Nat) : roundDiv num 1 = num := by
  simp [roundDiv, Nat.mod_one]

theorem roundDiv_le (num den : Nat) : roundDiv num den ≤ num / den + 1 := by
  unfold roundDiv
  dsimp only
  split
  · omega
  · split
    · omega
    · omega

/-- A whole number of at most fifty-three binary digits, shifted up to the leading bit. -/
theorem isFinite_whole (some : n ≠ 0) (small : n < 2 ^ 53) :
    IsFinite (n <<< (52 - n.log2)) ((n.log2 : Int) - 52) := by
  have digits : n.log2 < 53 := (Nat.log2_lt some).mpr small
  have split : 2 ^ n.log2 * 2 ^ (52 - n.log2) = leadingBit := by
    rw [← Nat.pow_add, show n.log2 + (52 - n.log2) = 52 by omega]
    rfl
  rw [Nat.shiftLeft_eq]
  constructor
  · rw [← split, ← Nat.mul_assoc, ← Nat.pow_succ']
    exact Nat.mul_lt_mul_of_pos_right Nat.lt_log2_self (Nat.two_pow_pos _)
  · rw [minExponent]
    omega
  · omega
  · intro _
    rw [← split]
    exact Nat.mul_le_mul_right _ (Nat.log2_self_le some)

/-- It has its own double. -/
theorem parts_ofRatio_whole (some : n ≠ 0) (small : n < 2 ^ 53) :
    parts (ofRatio false n 1) =
      .finite false (n <<< (52 - n.log2)) ((n.log2 : Int) - 52) := by
  have finite := isFinite_whole some small
  have digits : n.log2 < 53 := (Nat.log2_lt some).mpr small
  have bits : nearestBits n 1 = bitsFor (n <<< (52 - n.log2)) ((n.log2 : Int) - 52) := by
    have up : (-((n.log2 : Int) - 52)).toNat = 52 - n.log2 := by omega
    have down : ((n.log2 : Int) - 52).toNat = 0 := by omega
    unfold nearestBits
    rw [if_neg some, exponentFor_whole some]
    dsimp only
    rw [up, down, Nat.shiftLeft_zero, roundDiv_one]
    exact Nat.min_eq_left (bitsFor_le finite)
  rw [ofRatio, bits, parts_withSign finite]

/-- The double nearest to a number of sixty-four bits is far below infinity. -/
theorem nearestBits_le_of_lt (small : n < 2 ^ 64) : nearestBits n 1 ≤ 1087 * leadingBit := by
  by_cases zero : n = 0
  · subst zero
    exact Nat.zero_le _
  have most : n.log2 < 64 := (Nat.log2_lt zero).mpr small
  have field : ((n.log2 : Int) - 52 - minExponent).toNat ≤ 1085 := by
    rw [minExponent]
    omega
  have mantissa : roundDiv (n <<< (-((n.log2 : Int) - 52)).toNat)
      (1 <<< ((n.log2 : Int) - 52).toNat) ≤ 2 ^ 53 := by
    refine Nat.le_trans (roundDiv_le _ _) (Nat.succ_le_of_lt ?_)
    rw [Nat.shiftLeft_eq, Nat.one_shiftLeft, Nat.div_lt_iff_lt_mul (Nat.two_pow_pos _),
      ← Nat.pow_add]
    calc
      n * 2 ^ (-((n.log2 : Int) - 52)).toNat
          < 2 ^ (n.log2 + 1) * 2 ^ (-((n.log2 : Int) - 52)).toNat :=
        Nat.mul_lt_mul_of_pos_right Nat.lt_log2_self (Nat.two_pow_pos _)
      _ = 2 ^ (53 + ((n.log2 : Int) - 52).toNat) := by
        rw [← Nat.pow_add]
        congr 1
        omega
  unfold nearestBits
  rw [if_neg zero, exponentFor_whole zero]
  refine Nat.le_trans (Nat.min_le_left _ _) ?_
  rw [leadingBit]
  omega

theorem exists_parts_ofRatio (small : n < 2 ^ 64) :
    ∃ mantissa exponent, parts (ofRatio false n 1) = .finite false mantissa exponent :=
  exists_parts (Nat.lt_of_le_of_lt (nearestBits_le_of_lt small) (by decide))

end

end Binary64

namespace Decimal

open Binary64

/-! ### Rounding intervals -/

/-- The number lies in the interval. -/
structure RoundingInterval.Contains (i : RoundingInterval) (v : ℚ) : Prop where
  lower : (i.low : ℚ) * 2 ^ i.unit < v ∨ i.closed = true ∧ (i.low : ℚ) * 2 ^ i.unit = v
  upper : v < (i.high : ℚ) * 2 ^ i.unit ∨ i.closed = true ∧ v = (i.high : ℚ) * 2 ^ i.unit

variable {mantissa : Nat} {exponent : Int} {v : ℚ}

/-- How far below a double its interval reaches, in units of its last binary place. -/
def reachBelow (mantissa : Nat) (exponent : Int) : ℚ :=
  if mantissa = leadingBit ∧ exponent ≠ minExponent then 1 / 4 else 1 / 2

theorem reachBelow_le (mantissa : Nat) (exponent : Int) : reachBelow mantissa exponent ≤ 1 / 2 := by
  unfold reachBelow
  split <;> norm_num

theorem two_zpow_sub_two (exponent : Int) : (2 : ℚ) ^ (exponent - 2) = 2 ^ exponent / 4 := by
  rw [zpow_sub₀ (by norm_num)]
  norm_num

theorem low_mul (positive : 0 < mantissa) :
    ((roundingInterval mantissa exponent).low : ℚ) * 2 ^ (exponent - 2) =
      (mantissa - reachBelow mantissa exponent) * 2 ^ exponent := by
  have one : (1 : ℚ) ≤ mantissa := by exact_mod_cast positive
  have below : (if mantissa = leadingBit ∧ exponent ≠ minExponent then 1 else 2) ≤ 4 * mantissa := by
    split <;> omega
  rw [two_zpow_sub_two, roundingInterval, reachBelow, Nat.cast_sub below]
  split
  · push_cast
    ring
  · push_cast
    ring

theorem high_mul :
    ((roundingInterval mantissa exponent).high : ℚ) * 2 ^ (exponent - 2) =
      (mantissa + 1 / 2) * 2 ^ exponent := by
  rw [two_zpow_sub_two, roundingInterval]
  push_cast
  ring

/-- The interval in units of the last binary place. -/
theorem contains_iff (positive : 0 < mantissa) :
    (roundingInterval mantissa exponent).Contains v ↔
      (mantissa - reachBelow mantissa exponent < v / 2 ^ exponent ∨
        mantissa % 2 = 0 ∧ mantissa - reachBelow mantissa exponent = v / 2 ^ exponent) ∧
      (v / 2 ^ exponent < mantissa + 1 / 2 ∨
        mantissa % 2 = 0 ∧ v / 2 ^ exponent = (mantissa : ℚ) + 1 / 2) := by
  have unit := two_zpow_pos exponent
  have closed : (roundingInterval mantissa exponent).closed = true ↔ mantissa % 2 = 0 := by
    simp [roundingInterval]
  rw [lt_div_iff₀ unit, eq_div_iff unit.ne', div_lt_iff₀ unit, div_eq_iff unit.ne',
    ← low_mul positive, ← high_mul, ← closed]
  exact ⟨fun inside => ⟨inside.lower, inside.upper⟩, fun inside => ⟨inside.1, inside.2⟩⟩

theorem rounds_of_contains (positive : 0 < mantissa)
    (inside : (roundingInterval mantissa exponent).Contains v) :
    Rounds mantissa (v / 2 ^ exponent) := by
  obtain ⟨lower, upper⟩ := (contains_iff positive).mp inside
  have reach := reachBelow_le mantissa exponent
  refine ⟨?_, upper⟩
  rcases lower with below | ⟨even, same⟩
  · exact .inl (by linarith)
  · rcases reach.eq_or_lt with whole | less
    · exact .inr ⟨even, by linarith⟩
    · exact .inl (by linarith)

/-- Only the interval of a power of two reaches below it into the numbers with a smaller unit. -/
theorem eq_leadingBit_of_below (finite : IsFinite mantissa exponent) (apart : exponent ≠ minExponent)
    (inside : (roundingInterval mantissa exponent).Contains v)
    (below : v / 2 ^ exponent < leadingBit) : mantissa = leadingBit := by
  have leading := finite.leading apart
  have positive : 0 < mantissa := Nat.lt_of_lt_of_le (by decide) leading
  by_contra other
  have next : (leadingBit : ℚ) + 1 ≤ mantissa := by
    exact_mod_cast Nat.lt_of_le_of_ne leading (Ne.symm other)
  have low := (rounds_of_contains positive inside).lower
  rcases low with low | ⟨-, low⟩
  · linarith
  · linarith

variable {num den : Nat}

theorem nearestBits_of_rounds (someNum : num ≠ 0) (someDen : den ≠ 0) {q : Int} {rounded : Nat}
    (isExponent : exponentFor num den = q) (rounds : Rounds rounded (num / den / 2 ^ q))
    (most : (q - minExponent).toNat * leadingBit + rounded ≤ 2047 * leadingBit) :
    nearestBits num den = (q - minExponent).toNat * leadingBit + rounded := by
  have positive : 0 < den <<< q.toNat := by
    rw [Nat.shiftLeft_eq]
    exact Nat.mul_pos (Nat.pos_of_ne_zero someDen) (by positivity)
  unfold nearestBits
  rw [if_neg someNum]
  dsimp only
  rw [isExponent, rounds.roundDiv_eq positive (shifted_ratio num den q)]
  exact Nat.min_eq_left most

/-- The numbers below a power of two that still round to it have the exponent of the numbers
there, and a mantissa that is rounded up to the next power. -/
theorem nearestBits_of_below (finite : IsFinite mantissa exponent) (apart : exponent ≠ minExponent)
    (someNum : num ≠ 0) (someDen : den ≠ 0)
    (inside : (roundingInterval mantissa exponent).Contains (num / den))
    (below : (num : ℚ) / den / 2 ^ exponent < leadingBit) :
    nearestBits num den = bitsFor mantissa exponent := by
  obtain rfl := eq_leadingBit_of_below finite apart inside below
  have unit := two_zpow_pos exponent
  have lower := ((contains_iff (by decide)).mp inside).1
  rw [reachBelow, if_pos ⟨rfl, apart⟩] at lower
  have half : (num : ℚ) / den / 2 ^ (exponent - 1) = 2 * (num / den / 2 ^ exponent) := by
    rw [zpow_sub₀ (by norm_num), zpow_one]
    field_simp
  have value : (num : ℚ) / den = num / den / 2 ^ exponent * 2 ^ exponent :=
    (div_mul_cancel₀ _ unit.ne').symm
  have large : (2 : ℚ) ^ 51 ≤ num / den / 2 ^ exponent := by
    rw [leadingBit] at lower
    norm_num at lower ⊢
    rcases lower with lower | lower
    · linarith
    · linarith
  have isExponent : exponentFor num den = exponent - 1 := by
    have greatest : max (exponent - 1) minExponent = exponent - 1 := by
      have least := finite.least
      omega
    rw [← greatest]
    apply exponentFor_eq someNum someDen
    · rw [value, show exponent - 1 + 52 = 51 + exponent by ring, zpow_add₀ (by norm_num)]
      exact mul_le_mul_of_nonneg_right (by exact_mod_cast large) unit.le
    · rw [value, show exponent - 1 + 53 = 52 + exponent by ring, zpow_add₀ (by norm_num)]
      refine mul_lt_mul_of_pos_right ?_ unit
      rw [leadingBit] at below
      exact_mod_cast below
  have rounds : Rounds (2 * leadingBit) (num / den / 2 ^ (exponent - 1)) := by
    rw [half]
    constructor
    · rcases lower with lower | ⟨-, lower⟩
      · refine .inl ?_
        push_cast
        linarith
      · refine .inr ⟨rfl, ?_⟩
        push_cast
        linarith
    · refine .inl ?_
      push_cast
      linarith
  have same : (exponent - 1 - minExponent).toNat * leadingBit + 2 * leadingBit =
      bitsFor leadingBit exponent := by
    have least := finite.least
    have step : (exponent - minExponent).toNat = (exponent - 1 - minExponent).toNat + 1 := by omega
    rw [bitsFor, step]
    ring
  rw [← same]
  exact nearestBits_of_rounds someNum someDen isExponent rounds (same ▸ bitsFor_le finite)

/-- What lies in the rounding interval of a double is nearest to it. -/
theorem nearestBits_eq (finite : IsFinite mantissa exponent) (positive : 0 < mantissa)
    (someNum : num ≠ 0) (someDen : den ≠ 0)
    (inside : (roundingInterval mantissa exponent).Contains (num / den)) :
    nearestBits num den = bitsFor mantissa exponent := by
  have unit := two_zpow_pos exponent
  have rounds := rounds_of_contains positive inside
  have value : (num : ℚ) / den = num / den / 2 ^ exponent * 2 ^ exponent :=
    (div_mul_cancel₀ _ unit.ne').symm
  have small : (num : ℚ) / den < 2 ^ (exponent + 53) := by
    have most : (mantissa : ℚ) + 1 ≤ 2 ^ (53 : Int) := by
      have below := finite.mantissa_lt
      rw [leadingBit] at below
      exact_mod_cast below
    rw [value, show exponent + 53 = 53 + exponent by ring, zpow_add₀ (by norm_num)]
    refine mul_lt_mul_of_pos_right ?_ unit
    rcases rounds.upper with above | ⟨-, above⟩
    · linarith
    · linarith
  by_cases apart : exponent = minExponent
  · have positiveRatio : (0 : ℚ) < num / den := by
      have := Nat.pos_of_ne_zero someNum
      have := Nat.pos_of_ne_zero someDen
      positivity
    have isExponent : exponentFor num den = exponent := by
      have low := Int.zpow_log_le_self (b := 2) (by decide) positiveRatio
      have high := Int.lt_zpow_succ_log_self (b := 2) (by decide) ((num : ℚ) / den)
      push_cast at low high
      have log := two_zpow_lt.mp (low.trans_lt small)
      rw [exponentFor_eq someNum someDen (q := Int.log 2 ((num : ℚ) / den) - 52)
        (by rwa [sub_add_cancel]) (by rwa [show Int.log 2 ((num : ℚ) / den) - 52 + 53 =
          Int.log 2 ((num : ℚ) / den) + 1 by ring])]
      omega
    exact nearestBits_of_rounds someNum someDen isExponent rounds (bitsFor_le finite)
  · by_cases below : (num : ℚ) / den / 2 ^ exponent < leadingBit
    · exact nearestBits_of_below finite apart someNum someDen inside below
    · have isExponent : exponentFor num den = exponent := by
        have greatest : max exponent minExponent = exponent := by
          have least := finite.least
          omega
        rw [← greatest]
        apply exponentFor_eq someNum someDen _ small
        rw [value, show exponent + 52 = 52 + exponent by ring, zpow_add₀ (by norm_num)]
        refine mul_le_mul_of_nonneg_right ?_ unit.le
        rw [leadingBit] at below
        exact_mod_cast not_lt.mp below
      exact nearestBits_of_rounds someNum someDen isExponent rounds (bitsFor_le finite)

end Decimal

end DocExamples
