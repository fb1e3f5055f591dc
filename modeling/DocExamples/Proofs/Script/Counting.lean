import DocExamples.Proofs.Except
import DocExamples.Script.Call
import Mathlib.Algebra.Order.Floor.Ring
import Mathlib.Data.Rat.Floor
import Mathlib.Tactic.Ring
/-!
Counting by steps: the numbers that a loop meets before it reaches its end, and ranges, which count
in words. A count in words also ends where the next number has no word. No number is lost by that,
since the end is a word, so that the exact count would have ended there as well.
-/
namespace DocExamples.Script

open Integer

/-! ### Counting by steps -/

/-- How many numbers `first`, `first + step`, … there are before `stop`. -/
def stepCount (first stop step : Int) : Nat :=
  if 0 < step then ((stop - first + step - 1) / step).toNat
  else ((first - stop - step - 1) / (-step)).toNat

/-- Whether a count by `step` that is to end before `stop` ends at `i`. -/
def Reached (stop step i : Int) : Prop := if 0 < step then stop ≤ i else i ≤ stop

/-- The loop that counts from a number by `step` until `stop` is reached, with the numbers that it
meets. -/
inductive CountLoop (stop step : Int) : (i : Int) → (numbers : List Int) → Prop where
  | reached {i : Int} : Reached stop step i → CountLoop stop step i []
  | onward {i : Int} {rest : List Int} : ¬ Reached stop step i →
    CountLoop stop step (i + step) rest → CountLoop stop step i (i :: rest)

/-- `first`, `first + step` and so on. -/
def countBy (first stop step : Int) : List Int :=
  (List.range (stepCount first stop step)).map fun (k : Nat) => first + k * step

section Counting

variable {first stop step i : Int} {numbers others : List Int}

theorem lt_stepCount_iff (moves : step ≠ 0) {k : Nat} :
    k < stepCount first stop step ↔ ¬ Reached stop step (first + k * step) := by
  unfold stepCount Reached
  split
  · next upward =>
    have enough : (k : Int) + 1 ≤ (stop - first + step - 1) / step ↔
        (k + 1) * step ≤ stop - first + step - 1 := Int.le_ediv_iff_mul_le upward
    rw [Int.add_mul] at enough
    omega
  · next downward =>
    have enough : (k : Int) + 1 ≤ (first - stop - step - 1) / (-step) ↔
        (k + 1) * (-step) ≤ first - stop - step - 1 := Int.le_ediv_iff_mul_le (by omega)
    rw [Int.add_mul, Int.mul_neg] at enough
    omega

theorem stepCount_eq_zero (moves : step ≠ 0) (past : Reached stop step first) :
    stepCount first stop step = 0 := by
  refine Nat.eq_zero_of_not_pos fun some => ?_
  have before := (lt_stepCount_iff moves).mp some
  rw [Int.natCast_zero, Int.zero_mul, Int.add_zero] at before
  exact before past

theorem stepCount_eq_succ (moves : step ≠ 0) (before : ¬ Reached stop step first) :
    stepCount first stop step = stepCount (first + step) stop step + 1 := by
  refine eq_of_forall_lt_iff fun k => ?_
  rw [lt_stepCount_iff moves]
  cases k with
  | zero => simpa using before
  | succ k =>
    rw [Nat.succ_lt_succ_iff, lt_stepCount_iff moves]
    rw [Int.natCast_succ, Int.add_mul, Int.one_mul, Int.add_assoc, Int.add_comm step]

theorem countBy_eq_nil (moves : step ≠ 0) (past : Reached stop step first) :
    countBy first stop step = [] := by
  rw [countBy, stepCount_eq_zero moves past]
  rfl

theorem countBy_eq_cons (moves : step ≠ 0) (before : ¬ Reached stop step first) :
    countBy first stop step = first :: countBy (first + step) stop step := by
  rw [countBy, stepCount_eq_succ moves before, List.range_succ_eq_map, List.map_cons, List.map_map,
    countBy]
  congr 1
  · simp
  · refine List.map_congr_left fun k _ => ?_
    simp only [Function.comp_apply, Int.natCast_succ]
    ring

/-- The loop ends. -/
theorem countLoop_countBy (moves : step ≠ 0) (first stop : Int) :
    CountLoop stop step first (countBy first stop step) := by
  -- on how many numbers are still to come
  induction count : stepCount first stop step generalizing first with
  | zero =>
    have past : Reached stop step first := by
      by_contra before
      rw [stepCount_eq_succ moves before] at count
      cases count
    rw [countBy_eq_nil moves past]
    exact .reached past
  | succ count ih =>
    have before : ¬ Reached stop step first := by
      intro past
      rw [stepCount_eq_zero moves past] at count
      cases count
    rw [stepCount_eq_succ moves before, Nat.succ_inj] at count
    rw [countBy_eq_cons moves before]
    exact .onward before (ih _ count)

theorem CountLoop.unique (counts : CountLoop stop step i numbers)
    (again : CountLoop stop step i others) : numbers = others := by
  induction counts generalizing others with
  | reached past =>
    cases again with
    | reached => rfl
    | onward before => exact absurd past before
  | onward before _ ih =>
    cases again with
    | reached past => exact absurd past before
    | onward _ later => rw [ih later]

theorem countLoop_iff (moves : step ≠ 0) :
    CountLoop stop step i numbers ↔ numbers = countBy i stop step where
  mp counts := counts.unique (countLoop_countBy moves i stop)
  mpr same := same ▸ countLoop_countBy moves i stop

theorem pairwise_lt_countBy (upward : 0 < step) : (countBy first stop step).Pairwise (· < ·) := by
  refine List.pairwise_map.mpr (List.pairwise_lt_range.imp fun {k l} less => ?_)
  exact Int.add_lt_add_left (Int.mul_lt_mul_of_pos_right (Int.ofNat_lt.mpr less) upward) first

theorem pairwise_gt_countBy (downward : step < 0) : (countBy first stop step).Pairwise (· > ·) := by
  refine List.pairwise_map.mpr (List.pairwise_lt_range.imp fun {k l} less => ?_)
  exact Int.add_lt_add_left (Int.mul_lt_mul_of_neg_right (Int.ofNat_lt.mpr less) downward) first

/-- A count that goes up stays between its ends, and so does one that goes down. -/
theorem between_of_mem_countBy (moves : step ≠ 0) (member : i ∈ countBy first stop step) :
    if 0 < step then first ≤ i ∧ i < stop else stop < i ∧ i ≤ first := by
  obtain ⟨k, inside, rfl⟩ := List.mem_map.mp member
  have before := (lt_stepCount_iff moves).mp (List.mem_range.mp inside)
  unfold Reached at before
  split at before
  · next upward =>
    have away := Int.mul_nonneg (Int.natCast_nonneg k) upward.le
    rw [if_pos upward]
    omega
  · next downward =>
    have away := Int.mul_nonneg (Int.natCast_nonneg k) (by omega : 0 ≤ -step)
    rw [Int.mul_neg] at away
    rw [if_neg downward]
    omega

theorem ceil_div_eq {d : Int} (positive : 0 < d) (n : Int) : ⌈(n : ℚ) / d⌉ = (n + d - 1) / d := by
  have castPositive : (0 : ℚ) < d := Int.cast_pos.mpr positive
  have least := Int.ediv_mul_le (n + d - 1) positive.ne'
  have most := Int.lt_ediv_add_one_mul_self (n + d - 1) positive
  generalize (n + d - 1) / d = q at least most
  rw [Int.ceil_eq_iff, lt_div_iff₀ castPositive, div_le_iff₀ castPositive]
  rw [Int.add_mul] at most
  constructor
  · have below : (q - 1) * d < n := by
      rw [Int.sub_mul]
      omega
    exact_mod_cast below
  · have above : n ≤ q * d := by omega
    exact_mod_cast above

theorem stepCount_eq_ceil (moves : step ≠ 0) (first stop : Int) :
    (stepCount first stop step : Int) = max 0 ⌈((stop - first : Int) : ℚ) / step⌉ := by
  unfold stepCount
  split
  · next upward =>
    rw [ceil_div_eq upward, Int.ofNat_toNat, max_comm]
  · next downward =>
    have turned :
        ((stop - first : Int) : ℚ) / step = ((first - stop : Int) : ℚ) / (-step : Int) := by
      rw [← neg_div_neg_eq]
      push_cast
      ring
    rw [turned, ceil_div_eq (by omega), Int.ofNat_toNat, max_comm, ← sub_eq_add_neg]

end Counting

/-! ### Counting in words -/

section Words

variable {stop step current : Int64}

theorem goesOn_iff (moves : step.toInt ≠ 0) :
    goesOn stop step current = true ↔ ¬ Reached stop.toInt step.toInt current.toInt := by
  have nonzero : (0 : Int64).toInt = 0 := rfl
  simp only [goesOn, Reached, Bool.or_eq_true, Bool.and_eq_true, decide_eq_true_eq,
    Int64.lt_iff_toInt_lt, nonzero]
  split <;> omega

/-- A word counts as far as words go: the number behind the last one lies past every end. -/
theorem reached_of_word?_eq_none (none : word? (current.toInt + step.toInt) = none) :
    Reached stop.toInt step.toInt (current.toInt + step.toInt) := by
  have outside : ¬ fits (current.toInt + step.toInt) = true := by
    intro inside
    rw [word?, if_pos inside] at none
    cases none
  have held := (fits_iff _).mp (fits_toInt current)
  have ends := (fits_iff _).mp (fits_toInt stop)
  rw [fits_iff] at outside
  unfold Reached
  split
  · omega
  · omega

/-- A count in words finds the numbers of the exact count, if there is room for them, and else is
refused. -/
theorem countWords_cases (moves : step.toInt ≠ 0) (stop : Int64) (found : Array Value)
    (current : Int64) (room : Nat) :
    (∃ numbers : List Int64,
      numbers.map Int64.toInt = countBy current.toInt stop.toInt step.toInt ∧
      numbers.length ≤ room ∧
      countWords stop step found current room = .ok (found ++ (numbers.map Value.int).toArray)) ∨
    room < (countBy current.toInt stop.toInt step.toInt).length ∧
      countWords stop step found current room = .error (.tooLarge "range") := by
  induction room generalizing found current with
  | zero =>
    rw [countWords]
    by_cases past : Reached stop.toInt step.toInt current.toInt
    · rw [if_neg (by rwa [goesOn_iff moves, not_not]), countBy_eq_nil moves past]
      exact .inl ⟨[], rfl, Nat.le_refl 0, by simp⟩
    · rw [if_pos ((goesOn_iff moves).mpr past), countBy_eq_cons moves past]
      exact .inr ⟨Nat.succ_pos _, rfl⟩
  | succ room ih =>
    rw [countWords]
    by_cases past : Reached stop.toInt step.toInt current.toInt
    · rw [if_neg (by rwa [goesOn_iff moves, not_not]), countBy_eq_nil moves past]
      exact .inl ⟨[], rfl, Nat.zero_le _, by simp⟩
    · rw [if_pos ((goesOn_iff moves).mpr past), countBy_eq_cons moves past]
      cases following : word? (current.toInt + step.toInt) with
      | none =>
        rw [countBy_eq_nil moves (reached_of_word?_eq_none following)]
        exact .inl ⟨[current], rfl, Nat.succ_le_succ (Nat.zero_le room), by simp⟩
      | some next =>
        rw [← word?_eq_some_iff.mp following]
        rcases ih (found.push (.int current)) next with
          ⟨numbers, same, within, run⟩ | ⟨beyond, run⟩
        · refine .inl ⟨current :: numbers, ?_, Nat.succ_le_succ within, ?_⟩
          · rw [List.map_cons, same]
          · dsimp only
            rw [run]
            simp
        · exact .inr ⟨Nat.succ_lt_succ beyond, run⟩

theorem rangeItems_cases (moves : step ≠ 0) (start stop : Int64) :
    (∃ numbers : List Int64,
      numbers.map Int64.toInt = countBy start.toInt stop.toInt step.toInt ∧
      numbers.length ≤ maxSequenceLength ∧
      rangeItems start stop step = .ok (.ofList (numbers.map .int))) ∨
    maxSequenceLength < (countBy start.toInt stop.toInt step.toInt).length ∧
      rangeItems start stop step = .error (.tooLarge "range") := by
  have moves' : step.toInt ≠ 0 := fun still => moves (Int64.toInt.inj still)
  have counted := countWords_cases moves' stop #[] start maxSequenceLength
  rw [rangeItems, if_neg moves]
  rcases counted with ⟨numbers, same, within, run⟩ | ⟨beyond, run⟩
  · refine .inl ⟨numbers, same, within, ?_⟩
    rw [run, Array.empty_append]
    rfl
  · refine .inr ⟨beyond, ?_⟩
    rw [run]
    rfl

theorem ensures_rangeItems (start stop step : Int64) :
    Ensures (fun v => ∃ numbers : List Int64, numbers.length ≤ maxSequenceLength ∧
      v = .ofList (numbers.map .int)) (rangeItems start stop step) := by
  by_cases moves : step = 0
  · rw [rangeItems, if_pos moves]
    exact .error
  · rcases rangeItems_cases moves start stop with ⟨numbers, -, within, run⟩ | ⟨-, run⟩
    · rw [run]
      exact .ok ⟨numbers, within, rfl⟩
    · rw [run]
      exact .error

end Words

/-! ### Ranges -/

theorem run_range (start stop step : Int64) (m : Machine) :
    (Builtin.range.call [.int start, .int stop, .int step] []).run m =
      match rangeItems start stop step with
      | .ok v => (.ok v, m)
      | .error f => (.error (.fault f), m) := by
  change (lift (rangeItems start stop step)).run m = _
  cases rangeItems start stop step <;> rfl

/-- A range has exactly the numbers `start + k * step` before `stop`, as many as there are between
the bounds by exact arithmetic. There are none missing and none too many at the ends of the words
either. It is refused if and only if there are more than ten million. -/
theorem range_numbers {step : Int64} (moves : step ≠ 0) (start stop : Int64) (m : Machine) :
    let count := max 0 ⌈((stop.toInt - start.toInt : Int) : ℚ) / step.toInt⌉
    let range := (Builtin.range.call [.int start, .int stop, .int step] []).run m
    (count ≤ 10000000 → ∃ numbers : List Int64,
      range = (.ok (.ofList (numbers.map .int)), m) ∧
      numbers.map Int64.toInt =
        (List.range count.toNat).map fun (k : Nat) => start.toInt + k * step.toInt) ∧
    (10000000 < count ↔ ∃ f : Fault, range = (.error (.fault f), m) ∧ f.kind = "MemoryError") := by
  intro count range
  have moves' : step.toInt ≠ 0 := fun still => moves (Int64.toInt.inj still)
  have isCount : (stepCount start.toInt stop.toInt step.toInt : Int) = count :=
    stepCount_eq_ceil moves' start.toInt stop.toInt
  have length : (countBy start.toInt stop.toInt step.toInt).length =
      stepCount start.toInt stop.toInt step.toInt := by simp [countBy]
  have run : range = _ := run_range start stop step m
  have limit : maxSequenceLength = 10000000 := rfl
  rcases rangeItems_cases moves start stop with ⟨numbers, same, within, made⟩ | ⟨beyond, made⟩
  · rw [made] at run
    have few : numbers.length = stepCount start.toInt stop.toInt step.toInt := by
      rw [← length, ← same, List.length_map]
    refine ⟨fun _ => ⟨numbers, run, ?_⟩, fun many => by omega, ?_⟩
    · rw [same, countBy, ← isCount, Int.toNat_natCast]
    · rintro ⟨f, refused, -⟩
      rw [run] at refused
      cases refused
  · rw [made] at run
    exact ⟨fun few => by omega, fun _ => ⟨_, run, rfl⟩, fun _ => by omega⟩

/-- The number behind the last one is no word. -/
theorem range_numbers_at_greatest :
    let start : Int64 := 9223372036854775797
    let stop : Int64 := 9223372036854775807
    let m := Machine.start .empty
    (7 : Int64) ≠ 0 ∧ word? (9223372036854775804 + (7 : Int64).toInt) = none ∧
      max 0 ⌈((stop.toInt - start.toInt : Int) : ℚ) / (7 : Int64).toInt⌉ = 2 ∧
      ∃ numbers : List Int64,
        (Builtin.range.call [.int start, .int stop, .int 7] []).run m =
          (.ok (.ofList (numbers.map .int)), m) ∧
        numbers.map Int64.toInt = [9223372036854775797, 9223372036854775804] := by
  intro start stop m
  have counted : max 0 ⌈((stop.toInt - start.toInt : Int) : ℚ) / (7 : Int64).toInt⌉ = 2 := by
    have isCount := stepCount_eq_ceil (by decide : (7 : Int64).toInt ≠ 0) start.toInt stop.toInt
    rw [← isCount]
    decide
  obtain ⟨given, -⟩ := range_numbers (by decide : (7 : Int64) ≠ 0) start stop m
  rw [counted] at given
  obtain ⟨numbers, run, same⟩ := given (by decide)
  exact ⟨by decide, by decide, counted, numbers, run, same⟩

end DocExamples.Script
