import DocExamples.Proofs.ExactDoubles
/-!
Equality of doubles, and the integers that are equal to a double when they are rounded to one.
Small integers have doubles of their own, and no greater one is rounded to zero or one.
-/
namespace DocExamples.Binary64

open Float.Model UnpackedFloat

variable {x y z : Float} {i : Int}

theorem beq_comm (x y : Float) : (x == y) = (y == x) := by
  rw [beq_eq, beq_eq, ordering_swap x y]
  cases ordering? x y with
  | none => rfl
  | some o => cases o <;> rfl

theorem beq_trans (first : (x == y) = true) (second : (y == z) = true) : (x == z) = true := by
  rwa [beq_eq, (ordering_congr first z).1, ← beq_eq]

theorem beq_self_of_number (number : x.isNaN = false) : (x == x) = true := by
  rw [Float.beq_self_iff]
  rintro rfl
  exact absurd number (by decide)

theorem beq_iff_of_represents {j : Int} (left : Represents i x.toModel.unpack)
    (right : Represents j y.toModel.unpack) : (x == y) = true ↔ i = j := by
  rw [beq_eq, ordering_of_represents left right, beq_iff_eq, Option.some.injEq,
    Int.compare_eq_eq]

theorem ofInt_eq (i : Int) :
    ofInt i = if i < 0 then -ofRatio false i.natAbs 1 else ofRatio false i.natAbs 1 := by
  unfold ofInt
  split
  · next below => rw [neg_ofRatio, decide_eq_true below]
  · next above => rw [decide_eq_false above]

theorem represents_ofRatio {n : Nat} (small : n < 2 ^ 53) :
    Represents n (ofRatio false n 1).toModel.unpack := by
  by_cases zero : n = 0
  · subst zero
    have unpacked : (ofRatio false 0 1).toModel.unpack = .zero .positive := rfl
    rw [unpacked]
    rfl
  have digits : n.log2 < 53 := (Nat.log2_lt zero).mpr small
  have some : n <<< (52 - n.log2) ≠ 0 := by
    rw [Nat.shiftLeft_eq]
    exact Nat.mul_ne_zero zero (Nat.two_pow_pos _).ne'
  obtain ⟨sign, positive, isPositive, unpacked⟩ :=
    unpack_of_parts some (parts_ofRatio_whole zero small)
  cases sign with
  | negative => cases isPositive
  | positive =>
    have down : ((n.log2 : Int) - 52).toNat = 0 := by omega
    have up : (-((n.log2 : Int) - 52)).toNat = 52 - n.log2 := by omega
    rw [unpacked, Represents, down, up, Nat.shiftLeft_eq]
    change ((n * 2 ^ (52 - n.log2) : Nat) : Int) * 2 ^ 0 = _
    push_cast
    ring

/-- Integers of fewer than fifty-four binary digits have doubles of their own. -/
theorem represents_ofInt (small : i.natAbs < 2 ^ 53) : Represents i (ofInt i).toModel.unpack := by
  have magnitude := represents_ofRatio small
  rw [ofInt_eq]
  split
  · next below =>
    rw [unpack_neg]
    have negated := represents_neg magnitude
    rwa [show -(i.natAbs : Int) = i by omega] at negated
  · next above =>
    rwa [show (i.natAbs : Int) = i by omega] at magnitude

theorem le_natAbs_of_represents {n : Nat} {j : Int} (large : 2 ^ 53 ≤ n)
    (represents : Represents j (ofRatio false n 1).toModel.unpack) : 2 ^ 52 ≤ j.natAbs := by
  have made := parts_eq (ofRatio false n 1)
  cases unpacked : (ofRatio false n 1).toModel.unpack with
  | notANumber | infinity =>
    rw [unpacked] at represents
    cases represents
  | zero =>
    rw [unpacked] at made
    exact absurd (nonneg_of_large (Nat.not_lt.mpr large) made) (by decide)
  | finite sign mantissa exponent positive =>
    rw [unpacked] at made represents
    have nonneg := nonneg_of_large (Nat.not_lt.mpr large) made
    have leading := (of_parts made).1.leading (by rw [minExponent]; omega)
    have magnitude := (magnitude_of_represents represents).1
    rw [show (-exponent).toNat = 0 by omega, pow_zero, mul_one] at magnitude
    rw [← magnitude]
    exact leading.trans (Nat.le_mul_of_pos_right _ (Nat.two_pow_pos _))

/-- The double nearest to a greater integer is far from zero. -/
theorem le_natAbs_of_large {j : Int} (large : 2 ^ 53 ≤ i.natAbs)
    (represents : Represents j (ofInt i).toModel.unpack) : 2 ^ 52 ≤ j.natAbs := by
  rw [ofInt_eq] at represents
  split at represents
  · rw [unpack_neg] at represents
    have twice (u : UnpackedFloat) : u.neg.neg = u := by
      cases u with
      | notANumber => rfl
      | infinity s | zero s | finite s => cases s <;> rfl
    have negated := represents_neg represents
    rw [twice] at negated
    rw [← Int.natAbs_neg]
    exact le_natAbs_of_represents large negated
  · exact le_natAbs_of_represents large represents

theorem represents_ofBool (b : Bool) : Represents b.toInt (ofBool b).toModel.unpack := by
  cases b with
  | false => rfl
  | true =>
    have made : parts 1.0 = .finite false leadingBit (-52) := by decide +kernel
    obtain ⟨sign, positive, isPositive, unpacked⟩ := unpack_of_parts (by decide) made
    change Represents 1 (1.0 : Float).toModel.unpack
    rw [unpacked]
    cases sign with
    | positive => rfl
    | negative => cases isPositive

theorem eq_of_ofInt_beq_ofBool {i : Int64} {b : Bool} (same : (ofInt i.toInt == ofBool b) = true) :
    i.toInt = b.toInt := by
  by_cases small : i.toInt.natAbs < 2 ^ 53
  · exact (beq_iff_of_represents (represents_ofInt small) (represents_ofBool b)).mp same
  · obtain ⟨k, represents⟩ := exists_represents (isWhole_ofInt i)
    have far := le_natAbs_of_large (Nat.not_lt.mp small) represents
    rw [(beq_iff_of_represents represents (represents_ofBool b)).mp same] at far
    cases b <;> exact absurd far (by decide)

end DocExamples.Binary64
