import DocExamples.Proofs.Script.Broadcasting
import DocExamples.Proofs.Script.Lengths
import DocExamples.Proofs.Script.Slices
/-!
What integers, slices and lists of integers select from an array: along each axis the places that
the subscript for it chooses, in turn, and of all axes the product. Reading an item and storing one
go through the same places in the same order.
-/
namespace DocExamples.Script

variable {size axis p : Nat} {v : Value} {i : Int64} {vs : List Value} {s : Subscript}
  {shape place source : List Nat} {choices : List AxisChoice} {parts : List Subscript}

/-! ### Along one axis -/

namespace Subscript

end Subscript

/-- The sizes of the axes that stay. -/
def selectedShape (choices : List AxisChoice) : List Nat :=
  (choices.filter (·.stays)).map (·.positions.length)

/-- The place in an array that a place of the selection is taken from: along an axis that stays the
one that is chosen as that many-th, and along another axis the only one. -/
inductive Below : (choices : List AxisChoice) → (place source : List Nat) → Prop where
  | nil : Below [] [] []
  | stays {positions : List Nat} {choices : List AxisChoice} {k p : Nat}
    {place source : List Nat} : positions[k]? = some p → Below choices place source →
    Below (⟨positions, true⟩ :: choices) (k :: place) (p :: source)
  | goes {p : Nat} {choices : List AxisChoice} {place source : List Nat} :
    Below choices place source → Below (⟨[p], false⟩ :: choices) place (p :: source)

theorem Below.unique {other : List Nat} (below : Below choices place source)
    (again : Below choices place other) : source = other := by
  induction below generalizing other with
  | nil =>
    cases again
    rfl
  | stays chosen _ ih =>
    cases again with
    | stays chosen' later => rw [Option.some.inj (chosen.symm.trans chosen'), ih later]
  | goes _ ih =>
    cases again with
    | goes later => rw [ih later]

section Arrays

variable {t : Tensor} (shaped : t.WellShaped)
  (fits : List.Forall₂ AxisChoice.Fits t.shape choices)

include fits

include shaped

end Arrays

/-! ### Storing -/

/-- What an array of that kind keeps of a number: arrays of whole numbers the integer part. -/
def ElementKind.kept : ElementKind → Float → Float
  | .int => Binary64.trunc
  | _ => id

/-- Numbers are stored at the selected places, one for each place of the selection; where places
coincide, it is the last one that stays. All other elements are as before. -/
structure Tensor.FilledWith (t' t : Tensor) (choices : List AxisChoice)
    (number : List Nat → Option Float) : Prop where
  shape_eq : t'.shape = t.shape
  kind_eq : t'.kind = t.kind
  selected : ∀ place source, Below choices place source → ∃ last, Below choices last source ∧
    (∀ other, Below choices other source →
      positionOf (selectedShape choices) other ≤ positionOf (selectedShape choices) last) ∧
    t'.elementAt? source = (number last).map t.kind.kept
  other : ∀ source ∈ places t.shape, (∀ place, ¬ Below choices place source) →
    t'.elementAt? source = (t.elementAt? source).map t.kind.kept

section Writes

variable {data : Array Float} {writes : List (Nat × Float)}

end Writes

theorem Tensor.FilledWith.congr {t' t : Tensor} {number number' : List Nat → Option Float}
    (filled : t'.FilledWith t choices number)
    (same : ∀ place source, Below choices place source → number place = number' place) :
    t'.FilledWith t choices number' where
  shape_eq := filled.shape_eq
  kind_eq := filled.kind_eq
  selected place source below := by
    obtain ⟨last, below', isLast, found⟩ := filled.selected place source below
    exact ⟨last, below', isLast, same last source below' ▸ found⟩
  other := filled.other

/-! ### Numbers to store -/

section Numbers

variable {a : Tensor}

end Numbers

/-! ### Items of arrays -/

section Items

variable {t : Tensor}

end Items

end DocExamples.Script
