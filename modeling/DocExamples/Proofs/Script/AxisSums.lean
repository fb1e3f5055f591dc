import DocExamples.Proofs.Script.Broadcasting
/-!
Sums along the axes of a matrix. Those of the columns and those of the rows are computed apart, and
are the same up to swapping the axes, but for rows without elements: these have no sums.
-/
namespace DocExamples.Script

variable {t : Tensor} {rows cols i j : Nat}

/-! ### Places in matrices and vectors -/

namespace Tensor

end Tensor

/-! ### Sums -/

end DocExamples.Script
