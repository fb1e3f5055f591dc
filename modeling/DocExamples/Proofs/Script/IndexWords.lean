import DocExamples.Proofs.Script.ArrayReads
import DocExamples.Proofs.Script.Lengths
import DocExamples.Proofs.Script.SliceWords
/-!
Positions in arrays, computed in machine words. Rows and the sums of positions always fit. Strides
are products from the last axis on, and behind an axis of size zero they may be too large: where the
array has an element they fit.
-/
namespace DocExamples.Script

open Integer

section Sizes

variable {n : Nat} {shape : List Nat}

end Sizes

/-! ### Rows -/

section Selections

variable {shape : List Nat}

end Selections

/-! ### Stretched axes -/

section Stretched

variable {outer inner : List Nat} (stretches : List.Forall₂ Stretches outer inner)
include stretches

end Stretched

/-! ### Arrays -/

section Arrays

variable {t a b : Tensor}

end Arrays

end DocExamples.Script
