import DocExamples.Proofs.Shortest
/-!
The text of a finite double is read back as that double.
-/
namespace DocExamples.Decimal

open Binary64 Text

variable {mantissa : Nat} {exponent : Int}

/-! ### Decimals near a double -/

/-- Powers of two in groups of ninety-three against powers of ten in groups of twenty-eight. -/
theorem two_pow_le_grouped {r s : Nat} (rest : (2 : ℚ) ^ r ≤ 10 ^ s) (k : Nat) :
    (2 : ℚ) ^ (93 * k + r) ≤ 10 ^ (28 * k + s) := by
  have group : (2 : ℚ) ^ 93 ≤ 10 ^ 28 := by norm_num
  rw [pow_add, pow_add, pow_mul, pow_mul]
  exact mul_le_mul (pow_le_pow_left₀ (by positivity) group k) rest (by positivity) (by positivity)

/-- The greatest doubles have at most three hundred and nine digits before the point. -/
theorem two_pow_1024_le : (2 : ℚ) ^ 1024 ≤ 10 ^ 309 :=
  two_pow_le_grouped (r := 1) (s := 1) (by norm_num) 11

/-- Half of the least positive double starts at most at the three hundred and twenty-fourth digit
after the point. -/
theorem two_pow_1075_le : (2 : ℚ) ^ 1075 ≤ 10 ^ 324 :=
  two_pow_le_grouped (r := 52) (s := 16) (by norm_num) 11

theorem one_le_of_contains {v : ℚ} (positive : 0 < mantissa)
    (inside : (roundingInterval mantissa exponent).Contains v) : 1 / 2 * 2 ^ exponent ≤ v := by
  have one : (1 : ℚ) ≤ mantissa := by exact_mod_cast positive
  have unit := two_zpow_pos exponent
  have lower := (rounds_of_contains positive inside).lower
  rw [← le_div_iff₀ unit]
  rcases lower with lower | ⟨-, lower⟩
  · linarith
  · linarith

theorem le_of_contains {v : ℚ} (finite : IsFinite mantissa exponent) (positive : 0 < mantissa)
    (inside : (roundingInterval mantissa exponent).Contains v) : v < 2 ^ 53 * 2 ^ exponent := by
  have most : (mantissa : ℚ) + 1 ≤ 2 ^ 53 := by
    have below := finite.mantissa_lt
    rw [leadingBit] at below
    exact_mod_cast below
  have upper := (rounds_of_contains positive inside).upper
  rw [← div_lt_iff₀ (two_zpow_pos exponent)]
  rcases upper with upper | ⟨-, upper⟩
  · linarith
  · linarith

theorem lt_ten_pow_length (n : Nat) : n < 10 ^ (toString n).length := by
  rw [Nat.toString_eq_repr]
  exact (Nat.length_repr_le_iff Nat.length_repr_pos).mp (Nat.le_refl _)

/-- The decimal has its leading digit where those of doubles are. -/
theorem top_bounds {n : Nat} {k : Int} (finite : IsFinite mantissa exponent)
    (positive : 0 < mantissa)
    (inside : (roundingInterval mantissa exponent).Contains (n * 10 ^ k)) :
    0 < n ∧ -330 ≤ ((toString n).length : Int) + k ∧ ((toString n).length : Int) + k ≤ 310 := by
  have ten : (10 : ℚ) ≠ 0 := by norm_num
  have unit := two_zpow_pos exponent
  have low := one_le_of_contains positive inside
  have high := le_of_contains finite positive inside
  have some : 0 < n := by
    by_contra zero
    rw [show n = 0 by omega, Nat.cast_zero, zero_mul] at low
    linarith
  have length : 0 < (toString n).length := by
    rw [Nat.toString_eq_repr]
    exact Nat.length_repr_pos
  refine ⟨some, ?_, ?_⟩
  · have below : (n : ℚ) * 10 ^ k < 10 ^ (((toString n).length : Int) + k) := by
      rw [zpow_add₀ ten, zpow_natCast]
      exact mul_lt_mul_of_pos_right (by exact_mod_cast lt_ten_pow_length n) (ten_zpow_pos k)
    have least : (10 : ℚ) ^ (-324 : Int) ≤ 1 / 2 * 2 ^ exponent := by
      have smallest : (2 : ℚ) ^ (-1075 : Int) ≤ 1 / 2 * 2 ^ exponent := by
        have bound := zpow_le_zpow_right₀ (by norm_num : (1 : ℚ) ≤ 2) finite.least
        rw [show (-1075 : Int) = -1 + minExponent from rfl, zpow_add₀ (by norm_num)]
        exact mul_le_mul (by norm_num) bound (two_zpow_pos _).le (by norm_num)
      refine le_trans ?_ smallest
      rw [zpow_neg, zpow_neg]
      exact inv_anti₀ (by positivity) two_pow_1075_le
    have order := (zpow_lt_zpow_iff_right₀ (by norm_num : (1 : ℚ) < 10)).mp
      ((least.trans low).trans_lt below)
    omega
  · have above : (10 : ℚ) ^ (((toString n).length : Int) + k - 1) ≤ n * 10 ^ k := by
      rw [show ((toString n).length : Int) + k - 1 = ((toString n).length - 1 : Nat) + k by omega,
        zpow_add₀ ten, zpow_natCast]
      exact mul_le_mul_of_nonneg_right (by exact_mod_cast ten_pow_length_le some) (ten_zpow_pos k).le
    have greatest : (2 : ℚ) ^ 53 * 2 ^ exponent ≤ 10 ^ (309 : Int) := by
      have bound := zpow_le_zpow_right₀ (by norm_num : (1 : ℚ) ≤ 2) finite.most
      calc (2 : ℚ) ^ 53 * 2 ^ exponent ≤ 2 ^ 53 * 2 ^ ((971 : Nat) : Int) :=
            mul_le_mul_of_nonneg_left bound (by norm_num)
        _ = 2 ^ (53 + 971) := by rw [zpow_natCast, ← pow_add]
        _ ≤ 10 ^ 309 := two_pow_1024_le
    have order := (zpow_lt_zpow_iff_right₀ (by norm_num : (1 : ℚ) < 10)).mp
      ((above.trans_lt high).trans_le greatest)
    omega

/-- A decimal that rounds to a double is read as that double. -/
theorem toFloat_eq {n : Nat} {k : Int} (finite : IsFinite mantissa exponent)
    (positive : 0 < mantissa)
    (inside : (roundingInterval mantissa exponent).Contains (n * 10 ^ k)) (negative : Bool) :
    toFloat negative n k = withSign negative (bitsFor mantissa exponent) := by
  obtain ⟨some, bottom, top⟩ := top_bounds finite positive inside
  have ratio : ((n * Nat.pow 10 k.toNat : Nat) : ℚ) / (Nat.pow 10 (-k).toNat : Nat) = n * 10 ^ k := by
    rw [zpow_eq_div 10 (by norm_num) k, Nat.pow_eq, Nat.pow_eq]
    push_cast
    ring
  have powerUp : Nat.pow 10 k.toNat ≠ 0 := (Nat.pow_pos (by decide)).ne'
  have powerDown : Nat.pow 10 (-k).toNat ≠ 0 := (Nat.pow_pos (by decide)).ne'
  have nearest := nearestBits_eq finite positive (Nat.mul_ne_zero some.ne' powerUp) powerDown
    (ratio ▸ inside)
  have notTiny : (n = 0 || decide (((toString n).length : Int) + k < -330)) = false := by
    simp only [Bool.or_eq_false_iff, decide_eq_false_iff_not]
    omega
  unfold toFloat
  dsimp only
  rw [notTiny, if_neg Bool.false_ne_true, if_neg (by omega), ofRatio, nearest]

/-! ### What texts show -/

/-- The text is a numeral for the number. -/
def Shows (text : List Char) (v : ℚ) : Prop :=
  ∃ (n : Nat) (k : Int), (n : ℚ) * 10 ^ k = v ∧
    ∀ negative, readUnsigned? negative text = some (toFloat negative n k)

/-- The number whose digits start `point` places before the point. -/
def placed (digits : List Char) (point : Int) : ℚ :=
  ofDigits digits * 10 ^ (point - digits.length)

theorem exists_trailingZeros (digits : List Char) :
    ∃ n, digits = dropTrailingZeros digits ++ List.replicate n '0' := by
  have zeros : ∀ c ∈ digits.reverse.takeWhile (· == '0'), c = '0' := fun c member =>
    beq_iff_eq.mp (List.mem_takeWhile_imp (p := (· == '0')) member)
  refine ⟨(digits.reverse.takeWhile (· == '0')).reverse.length, ?_⟩
  have split := congrArg List.reverse
    (List.takeWhile_append_dropWhile (p := (· == '0')) (l := digits.reverse))
  rw [List.reverse_append, List.reverse_reverse] at split
  rw [dropTrailingZeros, ← List.eq_replicate_of_mem fun c member =>
    zeros c (List.mem_reverse.mp member)]
  exact split.symm

theorem placed_append_zeros (digits : List Char) (n : Nat) (point : Int) :
    placed (digits ++ List.replicate n '0') point = placed digits point := by
  have ten : (10 : ℚ) ≠ 0 := by norm_num
  rw [placed, placed, ofDigits_append, ofDigits_zeros, List.length_append, List.length_replicate,
    Nat.add_zero]
  push_cast
  rw [mul_assoc, ← zpow_natCast, ← zpow_add₀ ten]
  congr 2
  ring

theorem placed_digitsAndPoint (d : Decimal) :
    placed (digitsAndPoint d).1 (digitsAndPoint d).2 = d.coefficient * 10 ^ d.exponent := by
  obtain ⟨n, zeros⟩ := exists_trailingZeros (digitChars d.coefficient)
  rw [digitsAndPoint, ← placed_append_zeros _ n, ← zeros, placed, ofDigits_digitChars]
  congr 2
  ring

theorem readExponent?_render {style : ExponentStyle} (plus : style.plusSign = true)
    (exponent : Int) : readExponent? ('e' :: style.render exponent) = some exponent := by
  have digits : AllDigits (List.replicate (style.leastDigits - (digitChars exponent.natAbs).length)
      '0' ++ digitChars exponent.natAbs) :=
    (allDigits_zeros _).append (allDigits_digitChars _)
  have filled : List.replicate (style.leastDigits - (digitChars exponent.natAbs).length) '0' ++
      digitChars exponent.natAbs ≠ [] :=
    List.append_ne_nil_of_right_ne_nil _ (digitChars_ne_nil _)
  have value : ofDigits (List.replicate (style.leastDigits - (digitChars exponent.natAbs).length)
      '0' ++ digitChars exponent.natAbs) = exponent.natAbs := by
    rw [ofDigits_append, ofDigits_zeros, ofDigits_digitChars]
    omega
  unfold ExponentStyle.render
  dsimp only
  generalize List.replicate (style.leastDigits - (digitChars exponent.natAbs).length) '0' ++
    digitChars exponent.natAbs = padded at *
  have isDigits : (padded.isEmpty || !padded.all (·.isDigit)) = false := by
    simpa [filled] using show ∀ c ∈ padded, c.isDigit = true from digits
  rw [plus]
  split
  · have read : readExponent? ('e' :: '-' :: padded) = some (-(ofDigits padded : Int)) := by
      simp [readExponent?, takeSign, isDigits]
    rw [read, value]
    congr 1
    omega
  · have read : readExponent? ('e' :: '+' :: padded) = some (ofDigits padded : Int) := by
      simp [readExponent?, takeSign, isDigits]
    rw [if_pos rfl, read, value]
    congr 1
    omega

theorem shows_scientific {style : ExponentStyle} (plus : style.plusSign = true)
    {digits : List Char} (all : AllDigits digits) (point : Int) :
    Shows (scientific style digits (point - 1)) (placed digits point) := by
  have form := isExponent_render plus (point - 1)
  have read := readExponent?_render plus (point - 1)
  unfold scientific
  match digits with
  | [] => exact ⟨_, _, by simp [placed, ofDigits, digitValue], readUnsigned?_whole
      (List.cons_ne_nil _ _) (allDigits_zeros 1) form read⟩
  | [d] => exact ⟨_, _, by simp [placed], readUnsigned?_whole (List.cons_ne_nil _ _) all form read⟩
  | d :: c :: rest =>
    obtain ⟨first, others⟩ := List.forall_mem_cons.mp all
    have single : AllDigits [d] := List.forall_mem_cons.mpr ⟨first, fun _ member => by cases member⟩
    refine ⟨_, _, ?_, readUnsigned?_point (List.cons_ne_nil _ _) single others form read⟩
    rw [placed]
    congr 2
    simp only [List.length_cons]
    push_cast
    ring

theorem placed_zeros_append (digits : List Char) (n : Nat) (point : Int) :
    placed (List.replicate n '0' ++ digits) (point + n) = placed digits point := by
  rw [placed, placed, ofDigits_append, ofDigits_zeros, List.length_append, List.length_replicate,
    Nat.zero_mul, Nat.zero_add]
  congr 2
  push_cast
  ring

/-- The digits around the point are those of the number, with zeros before or after them. -/
theorem placed_positional (digits : List Char) (point : Int) :
    placed ((positional digits point).1 ++ (positional digits point).2)
      (positional digits point).1.length = placed digits point := by
  unfold positional
  split
  · have zeros : ['0'] ++ (List.replicate (-point).toNat '0' ++ digits) =
        List.replicate ((-point).toNat + 1) '0' ++ digits := rfl
    rw [zeros, ← placed_zeros_append digits ((-point).toNat + 1) point]
    congr 1
    simp only [List.length_singleton]
    omega
  · have zeros : digits.take point.toNat ++ List.replicate (point.toNat - digits.length) '0' ++
        digits.drop point.toNat = digits ++ List.replicate (point.toNat - digits.length) '0' := by
      rcases Nat.le_total digits.length point.toNat with short | long
      · rw [List.take_of_length_le short, List.drop_of_length_le short, List.append_nil]
      · rw [Nat.sub_eq_zero_of_le long, List.replicate_zero, List.append_nil, List.append_nil,
          List.take_append_drop]
    rw [zeros, placed_append_zeros]
    congr 1
    simp only [List.length_append, List.length_take, List.length_replicate]
    omega

theorem shows_fraction {whole fraction : List Char} (filled : whole ≠ []) (all : AllDigits whole)
    (allFraction : AllDigits fraction) :
    Shows (whole ++ '.' :: fraction) (placed (whole ++ fraction) whole.length) := by
  have read := readUnsigned?_point filled all allFraction .none rfl
  rw [List.append_nil] at read
  refine ⟨_, _, ?_, read⟩
  rw [placed, List.length_append]
  congr 2
  push_cast
  ring

theorem shows_magnitude {format : FloatFormat} (pointZero : format.pointZero = true)
    (plus : format.exponent.plusSign = true) {digits : List Char} (all : AllDigits digits)
    (point : Int) : Shows (format.magnitude digits point) (placed digits point) := by
  have laidOut := allDigits_positional all point
  have filled := positional_whole_ne_nil digits point
  unfold FloatFormat.magnitude
  split
  · exact shows_scientific plus all point
  · dsimp only
    rw [← placed_positional]
    split
    · exact shows_fraction filled laidOut.1 laidOut.2
    · next empty =>
      have empty : (positional digits point).2 = [] := by simpa using empty
      have shown := shows_fraction filled laidOut.1 (allDigits_zeros 1)
      rw [placed_append_zeros] at shown
      rwa [empty, List.append_nil]

/-! ### The text of a double -/

/-- What shows a number that rounds to a double is read as the double. -/
theorem Shows.readUnsigned?_eq {text : List Char} {v : ℚ} (shows : Shows text v)
    (finite : IsFinite mantissa exponent)
    (near : if mantissa = 0 then v = 0 else (roundingInterval mantissa exponent).Contains v)
    (negative : Bool) :
    readUnsigned? negative text = some (withSign negative (bitsFor mantissa exponent)) := by
  obtain ⟨n, k, value, read⟩ := shows
  rw [read, Option.some.injEq]
  split at near
  · next zero =>
    have least : exponent = minExponent := by
      by_contra apart
      have leading := finite.leading apart
      rw [zero, leadingBit] at leading
      cases leading
    have none : n = 0 := by
      rw [near, mul_eq_zero] at value
      rcases value with value | value
      · exact_mod_cast value
      · exact absurd value (ten_zpow_pos k).ne'
    rw [none, zero, least]
    rfl
  · next some =>
    rw [← value] at near
    exact toFloat_eq finite (Nat.pos_of_ne_zero some) near negative

/-- The digits of a double stand for a number that rounds to it. -/
theorem near_shownDigits (finite : IsFinite mantissa exponent) :
    if mantissa = 0 then
      placed (shownDigits mantissa exponent).1 (shownDigits mantissa exponent).2 = 0
    else (roundingInterval mantissa exponent).Contains
      (placed (shownDigits mantissa exponent).1 (shownDigits mantissa exponent).2) := by
  unfold shownDigits
  split
  · simp [placed, ofDigits]
  · next some =>
    rw [placed_digitsAndPoint]
    exact contains_shortest finite (Nat.pos_of_ne_zero some)

/-- The text of a finite double is a sign, if it is negative, and a numeral that is read as its
magnitude. -/
theorem render_reads {format : FloatFormat} (pointZero : format.pointZero = true)
    (plus : format.exponent.plusSign = true) {x : Float} {negative : Bool}
    (finite : parts x = .finite negative mantissa exponent) :
    ∃ body, IsFloatText body ∧
      (format.render x).toList = (if negative then '-' :: body else body) ∧
      ∀ sign, readUnsigned? sign body = some (withSign sign (bitsFor mantissa exponent)) := by
  obtain ⟨isFinite, -⟩ := of_parts finite
  have all := allDigits_shownDigits mantissa exponent
  refine ⟨_, isFloatText_magnitude pointZero plus all _, toList_render finite, fun sign => ?_⟩
  exact (shows_magnitude pointZero plus all _).readUnsigned?_eq isFinite (near_shownDigits isFinite) sign

/-- The text of a finite double is read as the double. -/
theorem readFloat?_render {format : FloatFormat} (pointZero : format.pointZero = true)
    (plus : format.exponent.plusSign = true) {x : Float} {negative : Bool}
    (finite : parts x = .finite negative mantissa exponent) :
    readFloat? (format.render x).toList = some x := by
  obtain ⟨body, form, text, read⟩ := render_reads pointZero plus finite
  obtain ⟨c, rest, digit, rfl⟩ := form.starts
  obtain ⟨positive, signed⟩ := readFloat?_of_isDigit digit rest
  rw [text, ← (of_parts finite).2]
  cases negative with
  | false => exact positive.trans (read false)
  | true => exact signed.trans (read true)

end DocExamples.Decimal
