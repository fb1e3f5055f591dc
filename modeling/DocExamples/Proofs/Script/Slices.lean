import DocExamples.Proofs.Script.ArrayShapes
import DocExamples.Proofs.Script.Counting
/-!
The positions of a slice are the numbers that a loop counts: from the clamped first bound by the
step, as long as the clamped second bound is not reached.
-/
namespace DocExamples.Script

/-! ### Slices -/

/-- What a bound of a slice denotes: negative ones count from the end of the sequence, and what lies
outside of `low` and `high` is moved to the nearer of them. -/
def sliceEnd (length : Nat) (low high missing : Int) (bound : Option Int64) : Int :=
  bound.elim missing fun i => clamp low high (if i.toInt < 0 then i.toInt + length else i.toInt)

/-- Where a slice of a sequence starts. -/
def sliceStart (length : Nat) (step : Int) (start : Option Int64) : Int :=
  if 0 < step then sliceEnd length 0 length 0 start
  else sliceEnd length (-1) (length - 1) (length - 1) start

/-- Where a slice of a sequence ends; this position is left out. -/
def sliceStop (length : Nat) (step : Int) (stop : Option Int64) : Int :=
  if 0 < step then sliceEnd length 0 length length stop
  else sliceEnd length (-1) (length - 1) (-1) stop

section Slice

variable (length : Nat) (start stop : Option Int64) {step : Int}

theorem slice_within (step : Int) :
    if 0 < step then 0 ≤ sliceStart length step start ∧ sliceStop length step stop ≤ length
    else -1 ≤ sliceStop length step stop ∧ sliceStart length step start ≤ length - 1 := by
  unfold sliceStart sliceStop
  split
  · exact ⟨(end_bounds start _ (by omega) (by omega)).1,
      (end_bounds stop _ (by omega) (by omega)).2⟩
  · exact ⟨(end_bounds stop _ (by omega) (by omega)).1,
      (end_bounds start _ (by omega) (by omega)).2⟩

theorem slice_numbers_within (moves : step ≠ 0) :
    ∀ i ∈ countBy (sliceStart length step start) (sliceStop length step stop) step,
      0 ≤ i ∧ i < length := by
  intro i member
  have ends := slice_within length start stop step
  have between := between_of_mem_countBy moves member
  split at between
  · next upward =>
    rw [if_pos upward] at ends
    omega
  · next downward =>
    rw [if_neg downward] at ends
    omega

theorem stepRange_eq (first stop step : Int) :
    stepRange first stop step = (countBy first stop step).map Int.toNat := by
  rw [stepRange, countBy, List.map_map]
  unfold stepCount
  split <;> rfl

/-- The positions of a slice are those of the count between its ends. -/
theorem slicePositions_eq {by' : Option Int64} (given : by'.elim 1 Int64.toInt = step)
    (moves : step ≠ 0) : slicePositions length start stop by' =
      .ok ((countBy (sliceStart length step start) (sliceStop length step stop) step).map
        Int.toNat) := by
  unfold slicePositions sliceStart sliceStop
  dsimp only
  rw [given, if_neg moves]
  split
  · rw [stepRange_eq]
    rfl
  · rw [stepRange_eq]
    rfl

theorem map_toNat_cast {numbers : List Int} (natural : ∀ i ∈ numbers, 0 ≤ i) :
    (numbers.map Int.toNat).map Nat.cast = numbers := by
  rw [List.map_map]
  refine (List.map_congr_left fun i member => ?_).trans numbers.map_id
  exact Int.toNat_of_nonneg (natural i member)

/-- A slice has the positions that the loop from its start by its step meets before its end. All lie
in the sequence, each further on in the direction of the step. A slice without a direction is
refused. -/
theorem slicePositions_countLoop (length : Nat) (start stop step : Option Int64) :
    let by' := step.elim 1 Int64.toInt
    let first := sliceStart length by' start
    let last := sliceStop length by' stop
    if by' = 0 then
      ∃ f : Fault, slicePositions length start stop step = .error f ∧ f.kind = "ValueError"
    else ∃ positions, slicePositions length start stop step = .ok positions ∧
      (∀ numbers, CountLoop last by' first numbers ↔ numbers = positions.map Nat.cast) ∧
      (∀ p ∈ positions, p < length) ∧
      (if 0 < by' then positions.Pairwise (· < ·) else positions.Pairwise (· > ·)) ∧
      (positions.length : Int) = max 0 ⌈((last - first : Int) : ℚ) / by'⌉ := by
  intro by' first last
  split
  · next still =>
    refine ⟨.value .zeroSliceStep, ?_, rfl⟩
    unfold slicePositions
    exact if_pos still
  · next moves =>
    have within := slice_numbers_within length start stop moves
    have natural := map_toNat_cast fun i member => (within i member).1
    refine ⟨_, slicePositions_eq length start stop rfl moves, fun numbers => ?_, ?_, ?_, ?_⟩
    · rw [natural, countLoop_iff moves]
    · intro p member
      obtain ⟨i, inside, rfl⟩ := List.mem_map.mp member
      have bounds := within i inside
      omega
    · split
      · next upward =>
        have rising : (countBy first last by').Pairwise (· < ·) := pairwise_lt_countBy upward
        rw [← natural, List.pairwise_map] at rising
        exact rising.imp Int.ofNat_lt.mp
      · next downward =>
        have falling : (countBy first last by').Pairwise (· > ·) :=
          pairwise_gt_countBy (by omega)
        rw [← natural, List.pairwise_map] at falling
        exact falling.imp Int.ofNat_lt.mp
    · rw [List.length_map, countBy, List.length_map, List.length_range]
      exact stepCount_eq_ceil moves first last

/-- As in `x[3::-2]` where `x` has five items. -/
example : slicePositions 5 (some 3) none (some (-2)) = .ok [3, 1] := by rfl

end Slice

end DocExamples.Script
