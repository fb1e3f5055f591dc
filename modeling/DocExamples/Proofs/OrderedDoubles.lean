import DocExamples.Proofs.ExactDoubles
/-!
Doubles that are not negative, as fractions. Sums and products of such doubles are the exact ones,
rounded. Rounding keeps the order of fractions, so that greater terms have a greater sum, and
greater factors a greater product, also where a result is too large for a double.
-/
namespace DocExamples.Binary64

open Float.Model UnpackedFloat

/-! ### Rounded fractions -/

theorem Rounds.mono {m n : Nat} {q r : ℚ} (first : Rounds m q) (second : Rounds n r)
    (le : q ≤ r) : m ≤ n := by
  by_contra less
  have step : (n : ℚ) + 1 ≤ m := by exact_mod_cast Nat.not_le.mp less
  -- Both are halves then, and round to the same even number.
  rcases first.lower with below | ⟨even, half⟩
  · rcases second.upper with above | ⟨-, half'⟩
    · linarith
    · linarith
  · rcases second.upper with above | ⟨even', half'⟩
    · linarith
    · have next : (m : ℚ) = (n + 1 : Nat) := by
        push_cast
        linarith
      have := Nat.cast_injective next
      omega

theorem Rounds.self (n : Nat) : Rounds n n := ⟨.inl (by linarith), .inl (by linarith)⟩

/-- A fraction rounds to a mantissa at the exponent that it has as a double. -/
structure RoundsTo (q : ℚ) (mantissa : Nat) (exponent : Int) : Prop where
  least : minExponent ≤ exponent
  below : q < 2 * leadingBit * 2 ^ exponent
  leading : exponent ≠ minExponent → leadingBit * 2 ^ exponent ≤ q
  rounds : Rounds mantissa (q / 2 ^ exponent)

namespace RoundsTo

variable {q r : ℚ} {m n : Nat} {e f : Int}

theorem le_top (rounds : RoundsTo q m e) : m ≤ 2 * leadingBit := by
  have unit := two_zpow_pos e
  refine rounds.rounds.mono (.self (2 * leadingBit)) ?_
  push_cast
  exact (div_le_iff₀ unit).mpr rounds.below.le

theorem leading_le (rounds : RoundsTo q m e) (apart : e ≠ minExponent) : leadingBit ≤ m :=
  (Rounds.self leadingBit).mono rounds.rounds
    ((le_div_iff₀ (two_zpow_pos e)).mpr (rounds.leading apart))

/-- Rounding keeps the order. -/
theorem mono (first : RoundsTo q m e) (second : RoundsTo r n f) (le : q ≤ r) :
    (m : ℚ) * 2 ^ e ≤ n * 2 ^ f := by
  rcases Int.lt_trichotomy e f with less | rfl | more
  · have top : (m : ℚ) ≤ 2 * leadingBit := by exact_mod_cast first.le_top
    have apart : f ≠ minExponent := (Int.lt_of_le_of_lt first.least less).ne'
    exact (mul_le_mul_of_nonneg_right top (two_zpow_pos e).le).trans
      (top_le_of_lt less (second.leading_le apart))
  · refine mul_le_mul_of_nonneg_right ?_ (two_zpow_pos e).le
    exact_mod_cast first.rounds.mono second.rounds
      (div_le_div_of_nonneg_right le (two_zpow_pos e).le)
  · -- The smaller fraction would have the larger exponent.
    have apart : e ≠ minExponent := (Int.lt_of_le_of_lt second.least more).ne'
    have low := first.leading apart
    have high := second.below.trans_le (top_le_of_lt more (Nat.le_refl leadingBit))
    exact absurd le (not_le.mpr (high.trans_le low))

theorem zero : RoundsTo 0 0 minExponent where
  least := Int.le_refl _
  below := mul_pos (by norm_num [leadingBit]) (two_zpow_pos _)
  leading apart := absurd rfl apart
  rounds := by
    rw [zero_div]
    exact_mod_cast Rounds.self 0

end RoundsTo

/-! ### Residual bits -/

def half (bit : Bool) : ℚ := if bit then 1 / 2 else 0

/-- A mantissa with its residual bits stands for a fraction less than half a unit above it. -/
structure Covers (em : ExtendedMantissa) (r : ℚ) : Prop where
  lower : em.mantissa + half em.roundBit ≤ r
  upper : r < em.mantissa + half em.roundBit + 1 / 2
  sticky : em.stickyBit = true ↔ em.mantissa + half em.roundBit < r

namespace Covers

variable {em : ExtendedMantissa} {r : ℚ}

theorem exact (mantissa : Nat) : Covers ⟨mantissa, false, false⟩ mantissa := by
  constructor <;> simp [half]

theorem shiftRightOne (covers : Covers em r) : Covers em.shiftRightOne (r / 2) := by
  obtain ⟨mantissa, round, sticky⟩ := em
  obtain ⟨lower, upper, strict⟩ := covers
  dsimp only at lower upper strict
  have halved : ((mantissa / 2 : Nat) : ℚ) + half (mantissa % 2 != 0) = mantissa / 2 := by
    have split : (mantissa : ℚ) = 2 * (mantissa / 2 : Nat) + (mantissa % 2 : Nat) := by
      exact_mod_cast (Nat.div_add_mod mantissa 2).symm
    rcases Nat.mod_two_eq_zero_or_one mantissa with even | odd
    · rw [even] at split ⊢
      rw [split]
      norm_num [half]
    · rw [odd] at split ⊢
      rw [split]
      norm_num [half]
      ring
  have bit : half round = 0 ∧ round = false ∨ half round = 1 / 2 ∧ round = true := by
    cases round <;> simp [half]
  unfold ExtendedMantissa.shiftRightOne
  constructor
  · dsimp only
    rw [halved]
    rcases bit with ⟨none, -⟩ | ⟨some, -⟩ <;> linarith
  · dsimp only
    rw [halved]
    rcases bit with ⟨none, -⟩ | ⟨some, -⟩ <;> linarith
  · dsimp only
    rw [halved, div_lt_div_iff_of_pos_right two_pos]
    rcases bit with ⟨none, rfl⟩ | ⟨some, rfl⟩
    · rw [Bool.false_or, strict, none, add_zero]
    · rw [Bool.true_or]
      exact ⟨fun _ => by linarith, fun _ => rfl⟩

theorem shiftRight (covers : Covers em r) (n : Nat) : Covers (em >>> n) (r / 2 ^ n) := by
  change Covers (n.repeat ExtendedMantissa.shiftRightOne em) _
  induction n with
  | zero => rwa [pow_zero, div_one]
  | succ n ih =>
    rw [pow_succ, ← div_div]
    exact ih.shiftRightOne

/-- The residual bits decide how the fraction is rounded. -/
theorem rounds (covers : Covers em r) : Rounds em.roundedMantissa r := by
  obtain ⟨mantissa, round, sticky⟩ := em
  obtain ⟨lower, upper, strict⟩ := covers
  dsimp only at lower upper strict
  cases round with
  | false =>
    have same : ExtendedMantissa.roundedMantissa ⟨mantissa, false, sticky⟩ = mantissa := by
      cases sticky <;> rfl
    rw [half, if_neg Bool.false_ne_true] at lower upper
    rw [same]
    exact ⟨.inl (by linarith), .inl (by linarith)⟩
  | true =>
    rw [half, if_pos rfl] at lower upper strict
    cases sticky with
    | true =>
      have above := strict.mp rfl
      change Rounds (mantissa + 1) r
      constructor
      · left
        push_cast
        linarith
      · left
        push_cast
        linarith
    | false =>
      have tie : r = mantissa + 1 / 2 :=
        le_antisymm (not_lt.mp fun above => Bool.false_ne_true (strict.mpr above)) lower
      change Rounds (mantissa + mantissa % 2) r
      rcases Nat.mod_two_eq_zero_or_one mantissa with even | odd
      · rw [even]
        exact ⟨.inl (by push_cast; linarith), .inr ⟨even, tie⟩⟩
      · rw [odd]
        refine ⟨.inr ⟨by omega, ?_⟩, .inl (by push_cast; linarith)⟩
        push_cast
        linarith

end Covers

/-! ### Rounded numbers -/

section

variable {mantissa : Nat} {exponent : Int}

theorem rounds_roundedAt (mantissa : Nat) (exponent : Int) :
    Rounds (roundedAt mantissa exponent .exact)
      (mantissa / 2 ^ (targetOf mantissa exponent - exponent).toNat) :=
  ((Covers.exact mantissa).shiftRight _).rounds

theorem roundsTo_roundedAt (fits : exponent ≤ targetOf mantissa exponent) :
    RoundsTo (mantissa * 2 ^ exponent) (roundedAt mantissa exponent .exact)
      (targetOf mantissa exponent) := by
  obtain ⟨below, leading⟩ := cut_bounds fits
  have rounds := rounds_roundedAt mantissa exponent
  obtain ⟨n, shift⟩ : ∃ n : Nat, targetOf mantissa exponent = exponent + n :=
    ⟨(targetOf mantissa exponent - exponent).toNat, by omega⟩
  have scaled : (2 : ℚ) ^ (exponent + n) = 2 ^ n * 2 ^ exponent := by
    rw [zpow_add₀ two_ne_zero, zpow_natCast, mul_comm]
  have unit := two_zpow_pos exponent
  rw [show (targetOf mantissa exponent - exponent).toNat = n by omega] at below leading rounds
  constructor
  · exact Int.le_max_right _ _
  · rw [shift, scaled, ← mul_assoc]
    refine mul_lt_mul_of_pos_right ?_ unit
    exact_mod_cast (Nat.div_lt_iff_lt_mul (Nat.two_pow_pos n)).mp below
  · intro apart
    rw [shift, scaled, ← mul_assoc]
    refine mul_le_mul_of_nonneg_right ?_ unit.le
    exact_mod_cast (Nat.le_div_iff_mul_le (Nat.two_pow_pos n)).mp (leading apart)
  · rw [shift, scaled, mul_div_mul_right _ _ unit.ne']
    exact rounds

end

/-! ### Measures -/

/-- The number after the greatest mantissa at the greatest exponent, which is too large for a
double. -/
def limit : ℚ := 2 * leadingBit * 2 ^ (971 : Int)

theorem limit_pos : 0 < limit := mul_pos (by norm_num [leadingBit]) (two_zpow_pos 971)

/-- The fraction that a number, not a negative one, stands for. Infinity stands for what is too
large for a double. -/
inductive Measures : ℚ → UnpackedFloat → Prop
  | zero (sign : Sign) : Measures 0 (.zero sign)
  | infinity : Measures limit (.infinity .positive)
  | finite (mantissa : Nat) (exponent : Int) (positive : 0 < mantissa) :
    Measures (mantissa * 2 ^ exponent) (.finite .positive mantissa exponent positive)

section Measures

variable {u v : UnpackedFloat} {q r : ℚ} {mantissa : Nat} {exponent : Int}

theorem Measures.unique (first : Measures q u) (second : Measures r u) : q = r := by
  cases first <;> cases second <;> rfl

theorem finite_pos (exponent : Int) (positive : 0 < mantissa) : (0 : ℚ) < mantissa * 2 ^ exponent :=
  mul_pos (by exact_mod_cast positive) (two_zpow_pos exponent)

theorem Measures.nonneg (measures : Measures q u) : 0 ≤ q := by
  cases measures with
  | zero => exact le_refl 0
  | infinity => exact limit_pos.le
  | finite mantissa exponent positive => exact (finite_pos exponent positive).le

theorem measures_assembled (mantissa : Nat) (exponent : Int) :
    Measures (mantissa * 2 ^ exponent) (assembled .positive mantissa exponent) := by
  unfold assembled
  split
  · next none =>
    rw [none, Nat.cast_zero, zero_mul]
    exact .zero .positive
  · exact .finite _ _ _

/-- Numbers with the mantissa of a double are below the limit if their exponent is that of one. -/
theorem lt_limit_iff {sign : Sign} {positive : 0 < mantissa}
    (rounded : IsRounded (.finite sign mantissa exponent positive)) :
    (mantissa : ℚ) * 2 ^ exponent < limit ↔ exponent ≤ 971 := by
  obtain ⟨below, least, leading⟩ := rounded
  unfold limit
  constructor
  · intro less
    by_contra large
    have some : leadingBit ≤ mantissa := by
      rw [minExponent] at leading
      exact leading (by omega)
    exact absurd less (not_lt.mpr (top_le_of_lt (Int.not_le.mp large) some))
  · intro small
    have short : (mantissa : ℚ) < 2 * leadingBit := by exact_mod_cast below
    have narrow : (2 : ℚ) ^ exponent ≤ 2 ^ (971 : Int) := zpow_le_zpow_right₀ (by norm_num) small
    exact (mul_lt_mul_of_pos_right short (two_zpow_pos exponent)).trans_le
      (mul_le_mul_of_nonneg_left narrow (mantissa.cast_nonneg.trans short.le))

/-- What is settled stands for the same, or for the limit. -/
theorem measures_settled (rounded : IsRounded u) (measures : Measures q u) :
    Measures (min q limit) (settled u) := by
  cases measures with
  | zero sign =>
    rw [min_eq_left limit_pos.le]
    exact .zero sign
  | infinity =>
    rw [min_self]
    exact .infinity
  | finite mantissa exponent positive =>
    have room := lt_limit_iff rounded
    change Measures _ (if 971 < exponent then _ else _)
    split
    · next large =>
      rw [min_eq_right (not_lt.mp (mt room.mp (Int.not_le.mpr large)))]
      exact .infinity
    · next small =>
      rw [min_eq_left (room.mpr (Int.not_lt.mp small)).le]
      exact .finite mantissa exponent positive

theorem lt_limit_of_settled {sign : Sign} {positive : 0 < mantissa}
    (rounded : IsRounded (.finite sign mantissa exponent positive))
    (same : settled (.finite sign mantissa exponent positive) =
      .finite sign mantissa exponent positive) : (mantissa : ℚ) * 2 ^ exponent < limit := by
  refine (lt_limit_iff rounded).mpr (Int.not_lt.mp fun large => ?_)
  rw [settled, if_pos large] at same
  cases same

/-- Numbers that are settled compare as the fractions that they stand for. -/
theorem compare_of_measures (roundedLeft : IsRounded u) (roundedRight : IsRounded v)
    (settledLeft : settled u = u) (settledRight : settled v = v) (left : Measures q u)
    (right : Measures r v) : UnpackedFloat.compare u v = some (compare q r) := by
  have lt {a b : ℚ} (less : a < b) : some .lt = some (compare a b) :=
    congrArg some (compare_lt_iff_lt.mpr less).symm
  have gt {a b : ℚ} (more : b < a) : some .gt = some (compare a b) :=
    congrArg some (compare_gt_iff_gt.mpr more).symm
  have eq (a : ℚ) : some .eq = some (compare a a) :=
    congrArg some (compare_eq_iff_eq.mpr rfl).symm
  cases left with
  | zero =>
    cases right with
    | zero => exact eq 0
    | infinity => exact lt limit_pos
    | finite n f positive => exact lt (finite_pos f positive)
  | infinity =>
    cases right with
    | zero => exact gt limit_pos
    | infinity => exact eq limit
    | finite => exact gt (lt_limit_of_settled roundedRight settledRight)
  | finite m e positive =>
    cases right with
    | zero => exact gt (finite_pos e positive)
    | infinity => exact lt (lt_limit_of_settled roundedLeft settledLeft)
    | finite => exact congrArg some (compare_magnitudes roundedLeft roundedRight)

end Measures

/-! ### Sums and products -/

/-- A number, its exponent perhaps too large for a double, stands for what the fraction is rounded
to. -/
def IsNearest (q : ℚ) (u : UnpackedFloat) : Prop :=
  ∃ mantissa exponent, RoundsTo q mantissa exponent ∧ Measures (mantissa * 2 ^ exponent) u

section Nearest

variable {u v : UnpackedFloat} {q r : ℚ} {mantissa : Nat} {exponent : Int}

theorem IsNearest.mono (first : IsNearest q u) (second : IsNearest r v) (le : q ≤ r) :
    ∃ a b, Measures a u ∧ Measures b v ∧ a ≤ b := by
  obtain ⟨m, e, rounds, measures⟩ := first
  obtain ⟨n, f, rounds', measures'⟩ := second
  exact ⟨_, _, measures, measures', rounds.mono rounds' le⟩

theorem isNearest_zero (sign : Sign) : IsNearest 0 (.zero sign) := by
  refine ⟨0, minExponent, .zero, ?_⟩
  rw [Nat.cast_zero, zero_mul]
  exact .zero sign

/-- The mantissa of a double is rounded already. -/
theorem isNearest_finite {positive : 0 < mantissa}
    (rounded : IsRounded (.finite .positive mantissa exponent positive)) :
    IsNearest (mantissa * 2 ^ exponent) (.finite .positive mantissa exponent positive) := by
  obtain ⟨below, least, leading⟩ := rounded
  have unit := two_zpow_pos exponent
  refine ⟨mantissa, exponent, ⟨least, ?_, fun apart => ?_, ?_⟩, .finite _ _ _⟩
  · exact mul_lt_mul_of_pos_right (by exact_mod_cast below) unit
  · exact mul_le_mul_of_nonneg_right (by exact_mod_cast leading apart) unit.le
  · rw [mul_div_cancel_right₀ _ unit.ne']
    exact .self mantissa

theorem isNearest_roundWithAccuracy (fits : exponent ≤ targetOf mantissa exponent) :
    IsNearest (mantissa * 2 ^ exponent)
      (roundWithAccuracy .binary64 .positive mantissa exponent .exact) := by
  have rounds := roundsTo_roundedAt fits
  rcases roundWithAccuracy_eq .positive .exact fits with ⟨result, -⟩ | ⟨carries, result⟩
  · rw [result]
    exact ⟨_, _, rounds, measures_assembled _ _⟩
  · rw [carries] at rounds
    have same : ((2 * leadingBit : Nat) : ℚ) * 2 ^ targetOf mantissa exponent =
        leadingBit * 2 ^ (targetOf mantissa exponent + 1) := by
      rw [zpow_add_one₀ two_ne_zero]
      push_cast
      ring
    refine ⟨_, _, rounds, ?_⟩
    rw [result, same]
    exact measures_assembled _ _

theorem isNearest_round (some : mantissa ≠ 0) :
    IsNearest (mantissa * 2 ^ exponent) (round .binary64 .positive mantissa exponent) := by
  obtain ⟨n, fits, same⟩ := exists_of_round .positive exponent some
  have nearest := isNearest_roundWithAccuracy fits
  have scaled : ((mantissa <<< n : Nat) : ℚ) * 2 ^ (exponent - n) = mantissa * 2 ^ exponent := by
    rw [Nat.shiftLeft_eq, zpow_sub₀ two_ne_zero, zpow_natCast]
    push_cast
    field_simp
  rwa [same, ← scaled]

theorem isNearest_mul (roundedLeft : IsRounded u) (roundedRight : IsRounded v)
    (left : Measures q u) (right : Measures r v) (smallLeft : q < limit) (smallRight : r < limit) :
    IsNearest (q * r) (mul .binary64 u v) := by
  cases left with
  | infinity => exact absurd smallLeft (lt_irrefl limit)
  | zero s =>
    rw [zero_mul]
    cases right with
    | infinity => exact absurd smallRight (lt_irrefl limit)
    | zero | finite => exact isNearest_zero _
  | finite m e p =>
    cases right with
    | infinity => exact absurd smallRight (lt_irrefl limit)
    | zero =>
      rw [mul_zero]
      exact isNearest_zero _
    | finite n f p' =>
      have exact' : ((m : ℚ) * 2 ^ e) * (n * 2 ^ f) = (m * n : Nat) * 2 ^ (e + f) := by
        rw [zpow_add₀ two_ne_zero]
        push_cast
        ring
      rw [exact']
      exact isNearest_roundWithAccuracy (product_fits p p' roundedLeft.2.2 roundedRight.2.2)

theorem isNearest_add (roundedLeft : IsRounded u) (roundedRight : IsRounded v)
    (left : Measures q u) (right : Measures r v) (smallLeft : q < limit) (smallRight : r < limit) :
    IsNearest (q + r) (add .binary64 u v) := by
  cases left with
  | infinity => exact absurd smallLeft (lt_irrefl limit)
  | zero s =>
    rw [zero_add]
    cases right with
    | infinity => exact absurd smallRight (lt_irrefl limit)
    | zero t => cases s <;> cases t <;> exact isNearest_zero _
    | finite => exact isNearest_finite roundedRight
  | finite m e p =>
    cases right with
    | infinity => exact absurd smallRight (lt_irrefl limit)
    | zero =>
      rw [add_zero]
      exact isNearest_finite roundedLeft
    | finite n f p' =>
      have shifted {k : Nat} {d : Int} (le : min e f ≤ d) :
          ((k <<< (d - min e f).toNat : Nat) : ℚ) * 2 ^ min e f = k * 2 ^ d := by
        rw [Nat.shiftLeft_eq, Nat.cast_mul, Nat.cast_pow, Nat.cast_ofNat, ← zpow_natCast, mul_assoc,
          ← zpow_add₀ two_ne_zero, show ((d - min e f).toNat : Int) + min e f = d by omega]
      have some : 0 < m <<< (e - min e f).toNat := by
        rw [Nat.shiftLeft_eq]
        exact Nat.mul_pos p (Nat.two_pow_pos _)
      have total : (0 : Int) < (m <<< (e - min e f).toNat : Nat) + (n <<< (f - min e f).toNat : Nat) :=
        Int.add_pos_of_pos_of_nonneg (Int.natCast_pos.mpr some) (Int.natCast_nonneg _)
      have rounded : add .binary64 (.finite .positive m e p) (.finite .positive n f p') =
          round .binary64 .positive (m <<< (e - min e f).toNat + n <<< (f - min e f).toNat)
            (min e f) := by
        change UnpackedFloat.normalize .binary64 (((m <<< (e - min e f).toNat : Nat) : Int) +
          (n <<< (f - min e f).toNat : Nat)) (min e f) .positive = _
        unfold UnpackedFloat.normalize
        rw [Int.compare_eq_gt.mpr total]
        rfl
      rw [rounded, ← shifted (Int.min_le_left e f), ← shifted (Int.min_le_right e f), ← add_mul,
        ← Nat.cast_add]
      exact isNearest_round (Nat.add_pos_left some _).ne'

end Nearest

/-! ### Doubles -/

/-- The double stands for the fraction, or is infinite and stands for the limit. -/
def IsAmount (q : ℚ) (x : Float) : Prop := Measures q x.toModel.unpack

section

variable {x y x' y' : Float} {q r q' r' : ℚ}

theorem le_iff_of_isAmount (left : IsAmount q x) (right : IsAmount r y) : x ≤ y ↔ q ≤ r := by
  have ordering : ordering? x y = some (compare q r) :=
    compare_of_measures (isRounded_unpack x) (isRounded_unpack y) (settled_unpack x)
      (settled_unpack y) left right
  rw [le_iff, ordering, Option.any_some]
  rcases lt_trichotomy q r with less | rfl | more
  · rw [compare_lt_iff_lt.mpr less]
    exact iff_of_true rfl less.le
  · rw [compare_eq_iff_eq.mpr rfl]
    exact iff_of_true rfl (le_refl q)
  · rw [compare_gt_iff_gt.mpr more]
    exact iff_of_false Bool.false_ne_true (not_le.mpr more)

/-- A sum or product before it is packed. -/
theorem isAmount_pack {u : UnpackedFloat} (rounded : IsRounded u) (measures : Measures q u) :
    IsAmount (min q limit) (.ofModel (Float.Model.pack u)) := by
  change Measures _ (Float.Model.pack u).unpack
  rw [unpack_pack rounded]
  exact measures_settled rounded measures

theorem IsAmount.le_limit (amount : IsAmount q x) : q ≤ limit := by
  have settled := measures_settled (isRounded_unpack x) amount
  rw [settled_unpack] at settled
  exact amount.unique settled ▸ min_le_right q limit

/-- Only infinity stands for the limit. -/
theorem IsAmount.lt_limit (amount : IsAmount q x) (some : x.toModel.unpack ≠ .infinity .positive) :
    q < limit := by
  have rounded := isRounded_unpack x
  have settled := settled_unpack x
  unfold IsAmount at amount
  generalize x.toModel.unpack = u at *
  cases amount with
  | zero => exact limit_pos
  | infinity => exact absurd rfl some
  | finite => exact lt_limit_of_settled rounded settled

theorem IsAmount.lt_limit_of_isFinite (amount : IsAmount q x) (finite : x.isFinite = true) :
    q < limit := by
  refine amount.lt_limit fun infinite => ?_
  change x.toModel.unpack.isFinite = true at finite
  rw [infinite] at finite
  cases finite

/-- A finite double that is not negative stands for a fraction. -/
theorem exists_isAmount (finite : x.isFinite = true) (nonneg : ¬x < 0.0) :
    ∃ q, IsAmount q x ∧ q < limit := by
  have zero : (0.0 : Float).toModel.unpack = .zero .positive := rfl
  have amount : ∃ q, IsAmount q x := by
    rw [lt_iff, ordering?, zero] at nonneg
    change x.toModel.unpack.isFinite = true at finite
    unfold IsAmount
    generalize x.toModel.unpack = u at *
    cases u with
    | notANumber | infinity => cases finite
    | zero sign => exact ⟨0, .zero sign⟩
    | finite sign mantissa exponent positive =>
      cases sign with
      | positive => exact ⟨_, .finite mantissa exponent positive⟩
      | negative => exact absurd rfl nonneg
  obtain ⟨q, amount⟩ := amount
  exact ⟨q, amount, amount.lt_limit_of_isFinite finite⟩

/-- So does the magnitude of what is a number. -/
theorem exists_isAmount_abs_of_number (number : x.toModel.unpack ≠ .notANumber) :
    ∃ q, IsAmount q x.abs := by
  unfold IsAmount
  rw [unpack_abs]
  generalize x.toModel.unpack = u at *
  cases u with
  | notANumber => exact absurd rfl number
  | zero => exact ⟨0, .zero .positive⟩
  | infinity => exact ⟨limit, .infinity⟩
  | finite sign mantissa exponent positive => exact ⟨_, .finite mantissa exponent positive⟩

theorem exists_isAmount_abs (finite : x.isFinite = true) : ∃ q, IsAmount q x.abs ∧ q < limit := by
  have number : x.toModel.unpack ≠ .notANumber := by
    intro none
    change x.toModel.unpack.isFinite = true at finite
    rw [none] at finite
    cases finite
  have magnitude : x.abs.isFinite = true := by
    change x.abs.toModel.unpack.isFinite = true
    change x.toModel.unpack.isFinite = true at finite
    rw [unpack_abs]
    generalize x.toModel.unpack = u at *
    cases u <;> exact finite
  obtain ⟨q, amount⟩ := exists_isAmount_abs_of_number number
  exact ⟨q, amount, amount.lt_limit_of_isFinite magnitude⟩

theorem isFinite_of_number (number : x.isNaN = false) (bounded : x.isInf = false) :
    x.isFinite = true := by
  change x.toModel.unpack.isNaN = false at number
  change x.toModel.unpack.isInf = false at bounded
  change x.toModel.unpack.isFinite = true
  generalize x.toModel.unpack = u at *
  cases u with
  | notANumber => cases number
  | infinity => cases bounded
  | zero | finite => rfl

theorem exists_isAmount_of_le (left : IsAmount q x) (le : x ≤ y) : ∃ r, IsAmount r y := by
  rw [le_iff, ordering?] at le
  unfold IsAmount at *
  generalize x.toModel.unpack = u at *
  generalize y.toModel.unpack = v at *
  cases v with
  | notANumber => cases left <;> cases le
  | zero sign => exact ⟨0, .zero sign⟩
  | infinity sign =>
    cases sign with
    | positive => exact ⟨limit, .infinity⟩
    | negative => cases left <;> cases le
  | finite sign mantissa exponent positive =>
    cases sign with
    | positive => exact ⟨_, .finite mantissa exponent positive⟩
    | negative => cases left <;> cases le

/-- A magnitude within one bound is within a greater one. -/
theorem abs_le_trans (within : x.abs ≤ y) (le : y ≤ y') : x.abs ≤ y' := by
  have number : x.toModel.unpack ≠ .notANumber := by
    intro none
    rw [le_iff, ordering?, unpack_abs, none] at within
    cases within
  obtain ⟨d, first⟩ := exists_isAmount_abs_of_number number
  obtain ⟨q, second⟩ := exists_isAmount_of_le first within
  obtain ⟨r, third⟩ := exists_isAmount_of_le second le
  rw [le_iff_of_isAmount first second] at within
  rw [le_iff_of_isAmount second third] at le
  exact (le_iff_of_isAmount first third).mpr (within.trans le)

/-- Greater factors have a greater product. -/
theorem mul_mono (left : IsAmount q x) (left' : IsAmount q' x') (right : IsAmount r y)
    (right' : IsAmount r' y') (smallLeft : q' < limit) (smallRight : r' < limit) (le : q ≤ q')
    (le' : r ≤ r') : ∃ a b, IsAmount a (x * y) ∧ IsAmount b (x' * y') ∧ a ≤ b := by
  have nearest := isNearest_mul (isRounded_unpack x) (isRounded_unpack y) left right
    (le.trans_lt smallLeft) (le'.trans_lt smallRight)
  have nearest' := isNearest_mul (isRounded_unpack x') (isRounded_unpack y') left' right'
    smallLeft smallRight
  obtain ⟨a, b, first, second, ordered⟩ :=
    nearest.mono nearest' (mul_le_mul le le' right.nonneg left'.nonneg)
  exact ⟨_, _, isAmount_pack (isRounded_mul (isRounded_unpack x) (isRounded_unpack y)) first,
    isAmount_pack (isRounded_mul (isRounded_unpack x') (isRounded_unpack y')) second,
    min_le_min_right limit ordered⟩

theorem add_infinity (left : IsAmount q x) (infinite : y.toModel.unpack = .infinity .positive) :
    IsAmount limit (x + y) := by
  have sum : Measures limit (add .binary64 x.toModel.unpack y.toModel.unpack) := by
    rw [infinite]
    unfold IsAmount at left
    generalize x.toModel.unpack = u at left
    cases left <;> exact .infinity
  have amount := isAmount_pack (isRounded_add (isRounded_unpack x) (isRounded_unpack y)) sum
  rwa [min_self] at amount

/-- Greater terms have a greater sum. -/
theorem add_mono (left : IsAmount q x) (left' : IsAmount q' x') (right : IsAmount r y)
    (right' : IsAmount r' y') (small : q' < limit) (le : q ≤ q') (le' : r ≤ r') :
    ∃ a b, IsAmount a (x + y) ∧ IsAmount b (x' + y') ∧ a ≤ b := by
  have rounded := isRounded_add (isRounded_unpack x) (isRounded_unpack y)
  by_cases top : y'.toModel.unpack = .infinity .positive
  · have sum : ∃ a, IsAmount a (x + y) := by
      by_cases top' : y.toModel.unpack = .infinity .positive
      · exact ⟨limit, add_infinity left top'⟩
      · obtain ⟨n, e, -, measures⟩ := isNearest_add (isRounded_unpack x) (isRounded_unpack y) left
          right (le.trans_lt small) (right.lt_limit top')
        exact ⟨_, isAmount_pack rounded measures⟩
    obtain ⟨a, amount⟩ := sum
    exact ⟨a, limit, amount, add_infinity left' top, amount.le_limit⟩
  · have smallRight := right'.lt_limit top
    have nearest := isNearest_add (isRounded_unpack x) (isRounded_unpack y) left right
      (le.trans_lt small) (le'.trans_lt smallRight)
    have nearest' := isNearest_add (isRounded_unpack x') (isRounded_unpack y') left' right' small
      smallRight
    obtain ⟨a, b, first, second, ordered⟩ := nearest.mono nearest' (add_le_add le le')
    exact ⟨_, _, isAmount_pack rounded first,
      isAmount_pack (isRounded_add (isRounded_unpack x') (isRounded_unpack y')) second,
      min_le_min_right limit ordered⟩

end

end DocExamples.Binary64
