import DocExamples.Proofs.Script.ArrayReads
/-!
Arrays of two shapes combined element by element. The shapes are aligned at their last axes, and an
axis of size one, or one that is missing, stretches to the size of the other array's. What stands at
a place of the result is made of the elements of both arrays below it.
-/
namespace DocExamples.Script

variable {shape left right place outer inner : List Nat} {k : Nat}

/-! ### Places -/

/-- The places in an array of that shape: an index for each axis, of which the last one runs
fastest. -/
def places : List Nat → List (List Nat)
  | [] => [[]]
  | n :: shape => (List.range n).flatMap fun i => (places shape).map (i :: ·)

/-- The position of a place in row-major order. -/
def positionOf : List Nat → List Nat → Nat
  | _ :: shape, i :: place => i * volume shape + positionOf shape place
  | _, _ => 0

/-- The element at a place. -/
def Tensor.elementAt? (t : Tensor) (place : List Nat) : Option Float :=
  if place ∈ places t.shape then t.data[positionOf t.shape place]? else none

namespace Tensor

variable {t : Tensor}

end Tensor

/-! ### Sizes -/

/-- More elements than arrays may have, or sizes of the first axes whose product is beyond what a
machine word holds. -/
def TooLarge (shape : List Nat) : Prop :=
  maxSequenceLength < volume shape ∨ ∃ front, front <+: shape ∧ UInt64.size ≤ volume front

theorem sizeWithin_of_fronts {size : Nat}
    (fits : ∀ front, front <+: shape → size * volume front < UInt64.size) :
    sizeWithin size shape = some (size * volume shape) := by
  induction shape generalizing size with
  | nil => exact congrArg some (Nat.mul_one size).symm
  | cons n shape ih =>
    have first : size * n < UInt64.size := by
      simpa [volume] using fits [n] (List.cons_prefix_cons.mpr ⟨rfl, List.nil_prefix⟩)
    rw [sizeWithin, if_pos first]
    refine (ih fun front isFront => ?_).trans (congrArg some (Nat.mul_assoc size n (volume shape)))
    rw [Nat.mul_assoc]
    exact fits (n :: front) (List.cons_prefix_cons.mpr ⟨rfl, isFront⟩)

theorem checkedSize_of_not_tooLarge (few : shape.length ≤ maxDimensions)
    (small : ¬ TooLarge shape) : checkedSize shape = .ok (volume shape) := by
  obtain ⟨enough, fits⟩ := not_or.mp small
  have whole : sizeWithin 1 shape = some (1 * volume shape) := by
    refine sizeWithin_of_fronts fun front isFront => ?_
    rw [Nat.one_mul]
    exact Nat.lt_of_not_le fun large => fits ⟨front, isFront, large⟩
  rw [checkedSize, if_neg (Nat.not_lt_of_le few), whole, Nat.one_mul]
  exact if_pos (Nat.le_of_not_lt enough)

/-! ### Places below others -/

variable {a b : Tensor} {kind : ElementKind} {f : Float → Float → Float}

end DocExamples.Script
