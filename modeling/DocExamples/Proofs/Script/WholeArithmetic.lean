import DocExamples.Script.Broadcast
import Mathlib.Algebra.Order.Ring.Int
import Mathlib.Algebra.Ring.Int.Parity
/-!
Arithmetic on whole numbers. Results are exact where they fit sixty-four bits, and overflows where
they do not; but a remainder by `-1` and powers with exponents of more than 32 bits are refused
without regard to the result.
-/
namespace DocExamples.Script

open Integer

/-! ### Exact results -/

/-- The whole number that an operator gives for two, where it gives one: quotients are rounded down,
and remainders have the sign of the divisor. -/
def BinaryOp.wholeResult? : BinaryOp → Int → Int → Option Int
  | .add, x, y => some (x + y)
  | .sub, x, y => some (x - y)
  | .mul, x, y => some (x * y)
  | .floorDiv, x, y => if y = 0 then none else some (x.fdiv y)
  | .mod, x, y => if y = 0 then none else some (x.fmod y)
  | .pow, x, y => if 0 ≤ y then some (x ^ y.toNat) else none
  | .div, _, _ => none
  | .matMul, _, _ => none

/-- The remainders and powers that are refused although their exact results fit. -/
def BinaryOp.RefusesExact : BinaryOp → Int → Int → Prop
  | .mod, x, y => x = least ∧ y = -1
  | .pow, x, y => x.natAbs ≤ 1 ∧ UInt32.size ≤ y
  | _, _, _ => False

def IsOverflow (result : Except Fault Value) : Prop :=
  ∃ f : Fault, result = .error f ∧ f.kind = "OverflowError"

/-- The result is the exact one if that fits, else an overflow. -/
def IsExactOrOverflow (answer : Int) (result : Except Fault Value) : Prop :=
  (∀ n : Int64, n.toInt = answer → result = .ok (.int n)) ∧
    (fits answer = false → IsOverflow result)

section Exact

variable {answer : Int} {result : Except Fault Value}

theorem isExactOrOverflow_exactInt (operation : String) (answer : Int) :
    IsExactOrOverflow answer (exactInt operation answer) := by
  unfold exactInt
  constructor
  · intro n value
    rw [word?_eq_some_iff.mpr value]
    rfl
  · intro outside
    rw [word?, outside]
    exact ⟨_, rfl, rfl⟩

theorem isExactOrOverflow_of_overflow (outside : fits answer = false)
    (overflow : IsOverflow result) : IsExactOrOverflow answer result := by
  refine ⟨fun n value => ?_, fun _ => overflow⟩
  rw [← value, fits_toInt] at outside
  cases outside

theorem not_isExactOrOverflow (within : fits answer = true) (overflow : IsOverflow result) :
    ¬ IsExactOrOverflow answer result := by
  obtain ⟨f, rfl, -⟩ := overflow
  intro ⟨value, _⟩
  cases value _ (toInt_ofInt within)

end Exact

/-! ### Division -/

section Division

variable {x y : Int}

/-- Remainders lie between zero and the divisor. -/
theorem fmod_between (nonzero : y ≠ 0) :
    if 0 < y then 0 ≤ x.fmod y ∧ x.fmod y < y else y < x.fmod y ∧ x.fmod y ≤ 0 := by
  split
  · next positive => exact ((Int.fdiv_fmod_unique positive).mp ⟨rfl, rfl⟩).2
  · next negative => exact ((Int.fdiv_fmod_unique' (by omega)).mp ⟨rfl, rfl⟩).2

/-- Division that rounds towards zero leaves remainders with the sign of the dividend. -/
theorem tmod_between (nonzero : y ≠ 0) :
    (0 ≤ x → 0 ≤ x.tmod y) ∧ (x ≤ 0 → x.tmod y ≤ 0) ∧ (x.tmod y).natAbs < y.natAbs := by
  refine ⟨Int.tmod_nonneg y, fun nonpos => ?_, ?_⟩
  · have turned := Int.tmod_nonneg y (Int.neg_nonneg_of_nonpos nonpos)
    rw [Int.neg_tmod] at turned
    omega
  · rw [Int.natAbs_tmod]
    exact Nat.mod_lt _ (Int.natAbs_pos.mpr nonzero)

/-- Division that rounds towards zero, corrected by one where that was up. -/
theorem fdiv_fmod_eq (nonzero : y ≠ 0) :
    x.fdiv y = (if x.tmod y ≠ 0 ∧ ¬ (x < 0 ↔ y < 0) then x.tdiv y - 1 else x.tdiv y) ∧
      x.fmod y =
        if x.tmod y ≠ 0 ∧ ¬ (x.tmod y < 0 ↔ y < 0) then x.tmod y + y else x.tmod y := by
  obtain ⟨nonneg, nonpos, small⟩ := tmod_between (x := x) nonzero
  have whole := Int.mul_tdiv_add_tmod x y
  have lower : y * (x.tdiv y - 1) = y * x.tdiv y - y := mul_sub_one y _
  have sameSign : x.tmod y ≠ 0 → (x.tmod y < 0 ↔ x < 0) := by omega
  rcases Int.lt_or_gt_of_ne nonzero with negative | positive
  · refine (Int.fdiv_fmod_unique' negative).mpr ?_
    split <;> split <;> omega
  · refine (Int.fdiv_fmod_unique positive).mpr ?_
    split <;> split <;> omega

/-- Only the least number has a quotient that does not fit, and only by `-1`. -/
theorem fits_fdiv_eq_false (nonzero : y ≠ 0) (within : fits x = true) :
    fits (x.fdiv y) = false ↔ x = least ∧ y = -1 := by
  constructor
  · intro outside
    have between := fmod_between (x := x) nonzero
    have whole := Int.fdiv_mul_add_fmod x y
    have smaller := Int.natAbs_fdiv_le_natAbs x y
    rw [fits_iff] at within
    rw [← Bool.not_eq_true, fits_iff] at outside
    simp only [least, greatest] at within outside ⊢
    -- The quotient is not larger than the dividend, so just one number is left for it.
    have quotient : x.fdiv y = 0x8000000000000000 := by omega
    rw [quotient] at whole
    split at between <;> omega
  · rintro ⟨rfl, rfl⟩
    decide

theorem fits_fmod (nonzero : y ≠ 0) (within : fits y = true) : fits (x.fmod y) = true := by
  have between := fmod_between (x := x) nonzero
  rw [fits_iff] at within ⊢
  simp only [least, greatest] at within ⊢
  split at between <;> omega

theorem fits_tdiv (nonzero : y ≠ 0) (within : fits x = true) (other : ¬ (x = least ∧ y = -1)) :
    fits (x.tdiv y) = true := by
  by_contra outside
  obtain ⟨nonneg, nonpos, small⟩ := tmod_between (x := x) nonzero
  have whole := Int.mul_tdiv_add_tmod x y
  have smaller := Int.natAbs_tdiv_le_natAbs x y
  rw [fits_iff] at within outside
  simp only [least, greatest] at within outside other
  have quotient : x.tdiv y = 0x8000000000000000 := by omega
  rw [quotient] at whole
  omega

end Division

section Words

variable {a b : Int64}

/-- The quotient rounded down, from one rounded towards zero; none if a step does not fit. -/
def quotientInWords (a b : Int64) : Option Int64 := do
  let quotient ← word? (a.toInt.tdiv b.toInt)
  let rest ← word? (a.toInt.tmod b.toInt)
  if rest.toInt ≠ 0 ∧ ¬ (a.toInt < 0 ↔ b.toInt < 0) then word? (quotient.toInt - 1)
  else some quotient

/-- The remainder with the sign of the divisor, from one with the sign of the dividend; none if a
step does not fit. -/
def remainderInWords (a b : Int64) : Option Int64 := do
  let rest ← word? (a.toInt.tmod b.toInt)
  if rest.toInt ≠ 0 ∧ ¬ (rest.toInt < 0 ↔ b.toInt < 0) then word? (rest.toInt + b.toInt)
  else some rest

theorem exists_word {i : Int} (within : fits i = true) :
    ∃ n : Int64, word? i = some n ∧ n.toInt = i :=
  ⟨Int64.ofInt i, if_pos within, toInt_ofInt within⟩

theorem exists_word_tmod (nonzero : b.toInt ≠ 0) :
    ∃ n : Int64, word? (a.toInt.tmod b.toInt) = some n ∧ n.toInt = a.toInt.tmod b.toInt := by
  obtain ⟨-, -, small⟩ := tmod_between (x := a.toInt) nonzero
  have within := fits_toInt b
  rw [fits_iff] at within
  refine exists_word ((fits_iff _).mpr ?_)
  simp only [least, greatest] at within ⊢
  omega

theorem quotientInWords_eq (nonzero : b.toInt ≠ 0) (other : ¬ (a.toInt = least ∧ b.toInt = -1)) :
    ∃ n : Int64, quotientInWords a b = some n ∧ n.toInt = a.toInt.fdiv b.toInt := by
  obtain ⟨quotient, found, isQuotient⟩ := exists_word (fits_tdiv nonzero (fits_toInt a) other)
  obtain ⟨rest, left, isRest⟩ := exists_word_tmod (a := a) nonzero
  have within : fits (a.toInt.fdiv b.toInt) = true := by
    by_contra outside
    exact other ((fits_fdiv_eq_false nonzero (fits_toInt a)).mp (Bool.not_eq_true _ ▸ outside))
  obtain ⟨n, isWord, value⟩ := exists_word within
  refine ⟨n, ?_, value⟩
  rw [(fdiv_fmod_eq nonzero).1] at isWord
  simp only [quotientInWords, found, left, Option.bind_eq_bind, Option.bind_some, isQuotient,
    isRest]
  split at isWord
  · next corrected => rw [if_pos corrected, isWord]
  · next kept => rw [if_neg kept, ← found, isWord]

theorem remainderInWords_eq (nonzero : b.toInt ≠ 0) :
    ∃ n : Int64, remainderInWords a b = some n ∧ n.toInt = a.toInt.fmod b.toInt := by
  obtain ⟨rest, left, isRest⟩ := exists_word_tmod (a := a) nonzero
  obtain ⟨n, isWord, value⟩ := exists_word (fits_fmod (x := a.toInt) nonzero (fits_toInt b))
  refine ⟨n, ?_, value⟩
  rw [(fdiv_fmod_eq nonzero).2] at isWord
  simp only [remainderInWords, left, Option.bind_eq_bind, Option.bind_some, isRest]
  split at isWord
  · next corrected => rw [if_pos corrected, isWord]
  · next kept => rw [if_neg kept, ← left, isWord]

end Words

/-! ### Powers -/

theorem smallPower_eq {x : Int} (small : x.natAbs ≤ 1) (n : Nat) : smallPower x n = x ^ n := by
  have cases : x = 0 ∨ x = 1 ∨ x = -1 := by omega
  unfold smallPower
  split
  · next none => rw [none, pow_zero]
  · next some =>
    rcases cases with rfl | rfl | rfl
    · rw [zero_pow some]
      split <;> rfl
    · rw [one_pow]
      split <;> rfl
    · split
      · next even => exact (Even.neg_one_pow (Nat.even_iff.mpr even)).symm
      · next odd => exact (Odd.neg_one_pow (Nat.odd_iff.mpr (by omega))).symm

theorem fits_pow_eq_false {x : Int} {n : Nat} (large : 2 ≤ x.natAbs) (high : 64 ≤ n) :
    fits (x ^ n) = false := by
  have beyond : 2 ^ 64 ≤ (x ^ n).natAbs := by
    rw [Int.natAbs_pow]
    calc 2 ^ 64 ≤ 2 ^ n := Nat.pow_le_pow_right (by decide) high
      _ ≤ x.natAbs ^ n := Nat.pow_le_pow_left large n
  rw [← Bool.not_eq_true, fits_iff, least, greatest]
  omega

theorem isExactOrOverflow_intPower {x : Int} {n : Nat} (used : 2 ≤ x.natAbs ∨ n < UInt32.size) :
    IsExactOrOverflow (x ^ n) (intPower x n) := by
  have overflow (high : 64 ≤ n) (large : 2 ≤ x.natAbs) : IsExactOrOverflow (x ^ n)
      (.error (.integerOverflow "exponentiation")) :=
    isExactOrOverflow_of_overflow (fits_pow_eq_false large high) ⟨_, rfl, rfl⟩
  unfold intPower
  dsimp only
  split
  · next high =>
    have size : UInt32.size = 4294967296 := rfl
    exact overflow (by omega) (by omega)
  · split
    · next small =>
      rw [smallPower_eq small]
      exact isExactOrOverflow_exactInt _ _
    · next large =>
      split
      · next high => exact overflow high (by omega)
      · exact isExactOrOverflow_exactInt _ _

/-! ### Operators -/

section Operators

variable {op : BinaryOp} {a b : Int64} {answer : Int}

theorem isExactOrOverflow_binary (defined : op.wholeResult? a.toInt b.toInt = some answer)
    (used : ¬ op.RefusesExact a.toInt b.toInt) :
    IsExactOrOverflow answer (binary op (.int a) (.int b)) := by
  change IsExactOrOverflow answer (intBinary op a b)
  have overflows : divisionOverflows a.toInt b.toInt = true ↔ a.toInt = least ∧ b.toInt = -1 := by
    simp [divisionOverflows]
  unfold intBinary
  dsimp only
  cases op with
  | add =>
    cases defined
    exact isExactOrOverflow_exactInt _ _
  | sub =>
    cases defined
    exact isExactOrOverflow_exactInt _ _
  | mul =>
    cases defined
    exact isExactOrOverflow_exactInt _ _
  | div => cases defined
  | floorDiv =>
    rw [BinaryOp.wholeResult?] at defined
    split at defined
    · cases defined
    · next nonzero =>
      cases defined
      dsimp only
      rw [if_neg nonzero]
      split
      · next extreme =>
        refine isExactOrOverflow_of_overflow ?_ ⟨_, rfl, rfl⟩
        exact (fits_fdiv_eq_false nonzero (fits_toInt a)).mpr (overflows.mp extreme)
      · exact isExactOrOverflow_exactInt _ _
  | mod =>
    rw [BinaryOp.wholeResult?] at defined
    split at defined
    · cases defined
    · next nonzero =>
      cases defined
      dsimp only
      rw [if_neg nonzero, if_neg fun extreme => used (overflows.mp extreme)]
      exact isExactOrOverflow_exactInt _ _
  | pow =>
    rw [BinaryOp.wholeResult?] at defined
    split at defined
    · next natural =>
      cases defined
      dsimp only
      rw [if_pos natural]
      refine isExactOrOverflow_intPower ?_
      unfold BinaryOp.RefusesExact at used
      omega
    · cases defined
  | matMul => cases defined

theorem overflow_of_refusesExact (refused : op.RefusesExact a.toInt b.toInt) :
    IsOverflow (binary op (.int a) (.int b)) := by
  change IsOverflow (intBinary op a b)
  unfold intBinary
  dsimp only
  cases op with
  | mod =>
    obtain ⟨low, unit⟩ := refused
    rw [low, unit]
    exact ⟨_, rfl, rfl⟩
  | pow =>
    obtain ⟨-, high⟩ := refused
    have size : UInt32.size = 4294967296 := rfl
    dsimp only
    rw [if_pos (by omega), intPower, if_pos (by omega)]
    exact ⟨_, rfl, rfl⟩
  | _ => exact absurd refused id

theorem fits_of_refusesExact {x y : Int} (defined : op.wholeResult? x y = some answer)
    (refused : op.RefusesExact x y) : fits answer = true := by
  cases op with
  | mod =>
    obtain ⟨rfl, rfl⟩ := refused
    cases defined
    decide
  | pow =>
    rw [BinaryOp.wholeResult?] at defined
    split at defined
    · cases defined
      have small : (x ^ y.toNat).natAbs ≤ 1 := by
        rw [Int.natAbs_pow]
        exact (Nat.pow_le_pow_left refused.1 _).trans (Nat.le_of_eq (Nat.one_pow _))
      rw [fits_iff, least, greatest]
      omega
    · cases defined
  | _ => exact absurd refused id

theorem zeroDivision_binary (divides : op = .div ∨ op = .floorDiv ∨ op = .mod)
    (zero : b.toInt = 0) :
    ∃ f : Fault, binary op (.int a) (.int b) = .error f ∧ f.kind = "ZeroDivisionError" := by
  change ∃ f : Fault, intBinary op a b = .error f ∧ f.kind = "ZeroDivisionError"
  unfold intBinary
  dsimp only
  rw [zero]
  rcases divides with rfl | rfl | rfl <;> exact ⟨_, rfl, rfl⟩

/-- Where an operator on two whole numbers has an exact result, the evaluator gives that if it fits
and an overflow if not, unless it is among those that are refused in any case. Nothing divides by
zero. Quotients and remainders belong together, remainders are smaller than the divisor and have its
sign, and no correction of what the machine divides leaves the words. -/
theorem whole_arithmetic (op : BinaryOp) (a b : Int64) :
    let x := a.toInt
    let y := b.toInt
    (∀ answer, op.wholeResult? x y = some answer →
      (IsExactOrOverflow answer (binary op (.int a) (.int b)) ↔ ¬ op.RefusesExact x y) ∧
      (op.RefusesExact x y → fits answer = true ∧ IsOverflow (binary op (.int a) (.int b)))) ∧
    (y = 0 → op = .div ∨ op = .floorDiv ∨ op = .mod →
      ∃ f : Fault, binary op (.int a) (.int b) = .error f ∧ f.kind = "ZeroDivisionError") ∧
    (y ≠ 0 →
      x = x.fdiv y * y + x.fmod y ∧ (x.fmod y).natAbs < y.natAbs ∧
      (x.fmod y ≠ 0 → (x.fmod y < 0 ↔ y < 0)) ∧
      (¬ (x = least ∧ y = -1) → ∃ n, quotientInWords a b = some n ∧ n.toInt = x.fdiv y) ∧
      ∃ n, remainderInWords a b = some n ∧ n.toInt = x.fmod y) := by
  intro x y
  refine ⟨fun answer defined => ⟨⟨fun given refused => ?_, isExactOrOverflow_binary defined⟩,
    fun refused => ⟨fits_of_refusesExact defined refused, overflow_of_refusesExact refused⟩⟩,
    fun zero divides => zeroDivision_binary divides zero, fun nonzero => ?_⟩
  · exact not_isExactOrOverflow (fits_of_refusesExact defined refused)
      (overflow_of_refusesExact refused) given
  · have between := fmod_between (x := x) nonzero
    refine ⟨(Int.fdiv_mul_add_fmod x y).symm, ?_, ?_, quotientInWords_eq nonzero,
      remainderInWords_eq nonzero⟩
    · split at between <;> omega
    · split at between <;> omega

/-- The least number leaves the remainder zero by `-1`, but there is no result. -/
theorem remainder_refused :
    ¬ ∀ (op : BinaryOp) (a b : Int64) (answer : Int),
      op.wholeResult? a.toInt b.toInt = some answer →
        IsExactOrOverflow answer (binary op (.int a) (.int b)) := by
  intro all
  have given := (all .mod Int64.minValue (-1) 0 (by decide)).1 0 (by decide)
  have refused : binary .mod (.int Int64.minValue) (.int (-1)) =
      .error (.integerOverflow "remainder") := by rfl
  rw [refused] at given
  cases given

end Operators

end DocExamples.Script
