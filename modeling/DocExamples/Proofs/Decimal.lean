import DocExamples.Decimal.Layout
import DocExamples.Decimal.Reading
import DocExamples.Proofs.Negation
import DocExamples.Proofs.Text.Numerals
import Mathlib.Data.List.Basic
/-!
Decimal numerals are read back: the digits of a number give the number, and the text of a double
has a value, which a minus sign in front negates.
-/
namespace DocExamples.Decimal

open Text

/-! ### Digits -/

theorem digitChars_eq (n : Nat) : digitChars n = Nat.toDigits 10 n := Nat.toList_repr

theorem allDigits_digitChars (n : Nat) : AllDigits (digitChars n) := by
  intro c member
  rw [digitChars_eq] at member
  exact Nat.isDigit_of_mem_toDigits (by decide) (by decide) member

theorem digitChars_ne_nil (n : Nat) : digitChars n ≠ [] := by
  rw [digitChars_eq]
  exact Nat.toDigits_ne_nil

theorem ofDigits_eq {digits : List Char} (all : AllDigits digits) :
    ofDigits digits = Nat.ofDigitChars 10 digits 0 := by
  rw [Nat.ofDigitChars_eq_foldl, ofDigits]
  apply List.foldl_ext _ _ _
  intro n c member
  rw [digitValue, if_pos (all c member)]

theorem ofDigits_digitChars (n : Nat) : ofDigits (digitChars n) = n := by
  rw [ofDigits_eq (allDigits_digitChars n), digitChars_eq, Nat.ofDigitChars_ten_toDigits]

theorem foldl_digits (digits : List Char) (n : Nat) :
    digits.foldl (fun n c => 10 * n + digitValue c) n = n * 10 ^ digits.length + ofDigits digits := by
  induction digits generalizing n with
  | nil => simp [ofDigits]
  | cons c digits ih =>
    rw [ofDigits, List.foldl_cons, List.foldl_cons, ih, ih (10 * 0 + digitValue c), List.length_cons]
    ring

theorem ofDigits_append (first second : List Char) :
    ofDigits (first ++ second) = ofDigits first * 10 ^ second.length + ofDigits second := by
  rw [ofDigits, List.foldl_append, foldl_digits]
  rfl

theorem ofDigits_zeros (n : Nat) : ofDigits (List.replicate n '0') = 0 := by
  induction n with
  | zero => rfl
  | succ n ih => rw [List.replicate_succ', ofDigits_append, ih]; rfl

/-! ### Whole numbers -/

/-- The digits of a number of sixty-four bits are read as the double nearest to it. -/
theorem toFloat_whole {n : Nat} (small : n < 2 ^ 64) :
    toFloat false n 0 = Binary64.ofRatio false n 1 := by
  have length : (toString n).length ≤ 20 := by
    rw [Nat.toString_eq_repr, Nat.length_repr_le_iff (by decide)]
    omega
  unfold toFloat
  dsimp only
  by_cases zero : n = 0
  · rw [if_pos (by simp [zero]), zero]
    rfl
  · rw [if_neg (by simp [zero]), if_neg (by omega)]
    exact congrArg (fun n => Binary64.ofRatio false n 1) (Nat.mul_one n)

/-! ### Doubles -/

theorem toFloat_neg (n : Nat) (e : Int) : toFloat true n e = -toFloat false n e := by
  unfold toFloat
  dsimp only
  split
  · exact (Binary64.neg_withSign (Nat.zero_le _)).symm
  · split
    · exact Binary64.neg_infinity.symm
    · exact (Binary64.neg_ofRatio _ _).symm

theorem readExponent?_isSome {exponent : List Char} (form : IsExponent exponent) :
    ∃ e, readExponent? exponent = some e := by
  cases form with
  | none => exact ⟨0, rfl⟩
  | @signed sign digits isSign all some =>
    have isDigits : (digits.isEmpty || !digits.all (·.isDigit)) = false := by
      simpa [some] using show ∀ c ∈ digits, c.isDigit = true from all
    rcases isSign with rfl | rfl
    · exact ⟨_, by simp only [readExponent?, takeSign, isDigits]; rfl⟩
    · exact ⟨_, by simp only [readExponent?, takeSign, isDigits]; rfl⟩

section

variable {whole fraction exponent : List Char} {e : Int}

/-- A numeral without a point. -/
theorem readUnsigned?_whole (filled : whole ≠ []) (all : AllDigits whole)
    (form : IsExponent exponent) (read : readExponent? exponent = some e) (negative : Bool) :
    readUnsigned? negative (whole ++ exponent) = some (toFloat negative (ofDigits whole) e) := by
  have stops := form.stopsDigits delimited_nil
  rw [List.append_nil] at stops
  unfold readUnsigned?
  simp only [takeWhile_isDigit all stops, dropWhile_isDigit all stops]
  cases form with
  | none => simp [filled, read]
  | signed => simp [filled, read]

theorem readUnsigned?_point (filled : whole ≠ []) (all : AllDigits whole)
    (allFraction : AllDigits fraction) (form : IsExponent exponent)
    (read : readExponent? exponent = some e) (negative : Bool) :
    readUnsigned? negative (whole ++ '.' :: (fraction ++ exponent)) =
      some (toFloat negative (ofDigits (whole ++ fraction)) (e - fraction.length)) := by
  have stops : ∀ c, ('.' :: (fraction ++ exponent)).head? = some c → c.isDigit = false := by
    intro c found
    cases found
    rfl
  have stopsFraction := form.stopsDigits delimited_nil
  rw [List.append_nil] at stopsFraction
  unfold readUnsigned?
  simp [takeWhile_isDigit all stops, dropWhile_isDigit all stops,
    takeWhile_isDigit allFraction stopsFraction, dropWhile_isDigit allFraction stopsFraction,
    filled, read]

end

/-- The text of a double stands for a decimal. -/
theorem readUnsigned?_isSome {text : List Char} (form : IsFloatText text) :
    ∃ n e, ∀ negative, readUnsigned? negative text = some (toFloat negative n e) := by
  cases form with
  | @mk whole fraction exponent some all fractionForm exponentForm notWhole =>
    obtain ⟨e, read⟩ := readExponent?_isSome exponentForm
    cases fractionForm with
    | none => exact ⟨_, _, readUnsigned?_whole some all exponentForm read⟩
    | point allFraction => exact ⟨_, _, readUnsigned?_point some all allFraction exponentForm read⟩

theorem toLower_of_isDigit {c : Char} (digit : c.isDigit = true) : c.toLower = c := by
  have small : ¬(c.val ≥ 'A'.val ∧ c.val ≤ 'Z'.val) := by
    simp only [Char.isDigit, Bool.and_eq_true, decide_eq_true_eq] at digit
    rintro ⟨large, -⟩
    exact absurd (UInt32.le_trans large digit.2) (by decide)
  rw [Char.toLower, dif_neg small]

/-- A text that starts with a digit is not the name of a special value. -/
theorem name_ne_of_isDigit {c : Char} (digit : c.isDigit = true) (rest : List Char)
    (name : String) (letter : name.toList.head?.any (·.isDigit) = false) :
    String.ofList ((c :: rest).map Char.toLower) ≠ name := by
  intro same
  have same := congrArg String.toList same
  rw [String.toList_ofList, List.map_cons, toLower_of_isDigit digit] at same
  rw [← same, List.head?_cons, Option.any_some, digit] at letter
  cases letter

theorem takeSign_of_isDigit {c : Char} (digit : c.isDigit = true) (rest : List Char) :
    takeSign (c :: rest) = (false, c :: rest) := by
  unfold takeSign
  split
  · next same =>
    cases same
    cases digit
  · next same =>
    cases same
    cases digit
  · rfl

/-- A text that starts with a digit is read as a numeral, with a minus sign in front or without. -/
theorem readFloat?_of_isDigit {c : Char} (digit : c.isDigit = true) (rest : List Char) :
    readFloat? (c :: rest) = readUnsigned? false (c :: rest) ∧
      readFloat? ('-' :: c :: rest) = readUnsigned? true (c :: rest) := by
  have notInf := name_ne_of_isDigit digit rest "inf" (by decide)
  have notInfinity := name_ne_of_isDigit digit rest "infinity" (by decide)
  have notNan := name_ne_of_isDigit digit rest "nan" (by decide)
  constructor
  · simp only [readFloat?, takeSign_of_isDigit digit, notInf, notInfinity, notNan, decide_false,
      Bool.or_self, Bool.false_eq_true, if_false]
  · simp only [readFloat?, takeSign, notInf, notInfinity, notNan, decide_false, Bool.or_self,
      Bool.false_eq_true, if_false]

/-- The text of a double has a value, and a sign in front negates it. -/
theorem readFloat?_isSome {text : List Char} (form : IsFloatText text) :
    ∃ x, readFloat? text = some x ∧ readFloat? ('-' :: text) = some (-x) := by
  obtain ⟨n, e, read⟩ := readUnsigned?_isSome form
  obtain ⟨c, rest, digit, rfl⟩ := form.starts
  obtain ⟨positive, negative⟩ := readFloat?_of_isDigit digit rest
  exact ⟨toFloat false n e, positive.trans (read false),
    negative.trans ((read true).trans (congrArg some (toFloat_neg n e)))⟩

/-! ### The text of a double -/

theorem allDigits_dropTrailingZeros {digits : List Char} (all : AllDigits digits) :
    AllDigits (dropTrailingZeros digits) := by
  intro c member
  have inside := (List.dropWhile_suffix _).subset (List.mem_reverse.mp member)
  exact all c (List.mem_reverse.mp inside)

theorem allDigits_positional {digits : List Char} (all : AllDigits digits) (point : Int) :
    AllDigits (positional digits point).1 ∧ AllDigits (positional digits point).2 := by
  unfold positional
  split
  · exact ⟨allDigits_zeros 1, (allDigits_zeros _).append all⟩
  · exact ⟨(all.take _).append (allDigits_zeros _), all.drop _⟩

theorem positional_whole_ne_nil (digits : List Char) (point : Int) :
    (positional digits point).1 ≠ [] := by
  unfold positional
  split
  · exact List.cons_ne_nil _ _
  · next positive =>
    intro empty
    have length := congrArg List.length empty
    simp only [List.length_append, List.length_take, List.length_replicate, List.length_nil]
      at length
    omega

/-- A number with a fixed number of places has digits before the point. -/
theorem allDigits_fixed (places mantissa : Nat) (exponent : Int) :
    (fixed places mantissa exponent).1 ≠ [] ∧ AllDigits (fixed places mantissa exponent).1 ∧
      AllDigits (fixed places mantissa exponent).2 := by
  unfold fixed
  dsimp only
  have digits := allDigits_digitChars (nearest mantissa exponent (-(places : Int))).coefficient
  have padded (n : Nat) := (allDigits_zeros n).append digits
  refine ⟨fun empty => ?_, (padded _).take _, (padded _).drop _⟩
  have length := congrArg List.length empty
  simp only [List.length_take, List.length_append, List.length_replicate, List.length_nil] at length
  omega

theorem allDigits_fixedScientific (places mantissa : Nat) (exponent : Int) :
    (fixedScientific places mantissa exponent).1 ≠ [] ∧
      AllDigits (fixedScientific places mantissa exponent).1 := by
  unfold fixedScientific
  split
  · exact ⟨List.cons_ne_nil _ _, allDigits_zeros _⟩
  · dsimp only
    have digits := allDigits_digitChars (significant (places + 1) mantissa exponent).coefficient
    have filled := digitChars_ne_nil (significant (places + 1) mantissa exponent).coefficient
    exact ⟨fun empty => by simp [filled] at empty, digits.take _⟩

theorem isExponent_render {style : ExponentStyle} (plus : style.plusSign = true) (exponent : Int) :
    IsExponent ('e' :: style.render exponent) := by
  have digits : AllDigits (List.replicate (style.leastDigits - (digitChars exponent.natAbs).length)
      '0' ++ digitChars exponent.natAbs) :=
    (allDigits_zeros _).append (allDigits_digitChars _)
  have some : List.replicate (style.leastDigits - (digitChars exponent.natAbs).length) '0' ++
      digitChars exponent.natAbs ≠ [] :=
    List.append_ne_nil_of_right_ne_nil _ (digitChars_ne_nil _)
  unfold ExponentStyle.render
  dsimp only
  rw [plus]
  split
  · exact .signed (.inr rfl) digits some
  · exact .signed (.inl rfl) digits some

theorem isFloatText_scientific {style : ExponentStyle} (plus : style.plusSign = true)
    {digits : List Char} (all : AllDigits digits) (exponent : Int) :
    IsFloatText (scientific style digits exponent) := by
  have form := isExponent_render plus exponent
  have present : 'e' :: style.render exponent ≠ [] := List.cons_ne_nil _ _
  unfold scientific
  match digits with
  | [] => exact .mk (List.cons_ne_nil _ _) (allDigits_zeros 1) .none form fun _ => present
  | [d] => exact .mk (List.cons_ne_nil _ _) all .none form fun _ => present
  | d :: c :: rest =>
    obtain ⟨first, others⟩ := List.forall_mem_cons.mp all
    have single : AllDigits [d] := List.forall_mem_cons.mpr ⟨first, fun _ member => nomatch member⟩
    exact .mk (List.cons_ne_nil _ _) single (.point others) form fun _ => present

theorem isFloatText_point {whole fraction : List Char} (some : whole ≠ []) (all : AllDigits whole)
    (allFraction : AllDigits fraction) : IsFloatText (whole ++ '.' :: fraction) := by
  have form := IsFloatText.mk some all (.point allFraction) .none fun absent => nomatch absent
  rwa [List.append_nil] at form

/-- The digits of a magnitude and the place of the point among them. -/
def shownDigits (mantissa : Nat) (exponent : Int) : List Char × Int :=
  if mantissa = 0 then ([], 1) else digitsAndPoint (shortest mantissa exponent)

/-- The text of a magnitude. -/
def FloatFormat.magnitude (format : FloatFormat) (digits : List Char) (point : Int) : List Char :=
  if format.leastPlace.any (point < ·) || format.greatestPlace.any (· < point) then
    scientific format.exponent digits (point - 1)
  else
    let (whole, fraction) := positional digits point
    if !fraction.isEmpty then whole ++ '.' :: fraction
    else if format.pointZero then whole ++ ['.', '0'] else whole

section

variable {format : FloatFormat} {mantissa : Nat} {exponent : Int}

/-- The text of a finite double: a sign if it is negative, and the text of its magnitude. -/
theorem toList_render {x : Float} {negative : Bool}
    (parts : Binary64.parts x = .finite negative mantissa exponent) :
    (format.render x).toList =
      if negative then
        '-' :: format.magnitude (shownDigits mantissa exponent).1 (shownDigits mantissa exponent).2
      else format.magnitude (shownDigits mantissa exponent).1 (shownDigits mantissa exponent).2 := by
  unfold FloatFormat.render
  rw [parts]
  exact String.toList_ofList

theorem allDigits_shownDigits (mantissa : Nat) (exponent : Int) :
    AllDigits (shownDigits mantissa exponent).1 := by
  unfold shownDigits
  split
  · exact fun c member => by cases member
  · exact allDigits_dropTrailingZeros (allDigits_digitChars _)

theorem isFloatText_magnitude (pointZero : format.pointZero = true)
    (plus : format.exponent.plusSign = true) {digits : List Char} (all : AllDigits digits)
    (point : Int) : IsFloatText (format.magnitude digits point) := by
  have laidOut := allDigits_positional all point
  have whole := positional_whole_ne_nil digits point
  unfold FloatFormat.magnitude
  split
  · exact isFloatText_scientific plus all _
  · dsimp only
    split
    · exact isFloatText_point whole laidOut.1 laidOut.2
    · exact isFloatText_point whole laidOut.1 (allDigits_zeros 1)

/-- The form of a finite double: a sign if it is negative, and digits with a point or an exponent. -/
theorem render_finite (pointZero : format.pointZero = true)
    (plus : format.exponent.plusSign = true) {x : Float} {negative : Bool}
    (parts : Binary64.parts x = .finite negative mantissa exponent) :
    ∃ body, IsFloatText body ∧
      (format.render x).toList = if negative then '-' :: body else body :=
  ⟨_, isFloatText_magnitude pointZero plus (allDigits_shownDigits mantissa exponent) _,
    toList_render parts⟩

end

end DocExamples.Decimal
