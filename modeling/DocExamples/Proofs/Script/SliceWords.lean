import DocExamples.Proofs.Script.Slices
/-!
The positions of a slice, computed in words of sixty-four bits. The only sum that a word may fail to
hold is the last one of the count, behind a position that the slice has.
-/
namespace DocExamples.Script

open Integer

instance (stop step i : Int) : Decidable (Reached stop step i) :=
  inferInstanceAs (Decidable (if 0 < step then stop ≤ i else i ≤ stop))

section Counting

variable {stop step i : Int}

end Counting

section Slice

variable {length : Nat} (short : (length : Int) ≤ greatest) (start stop : Option Int64)
include short

end Slice

end DocExamples.Script
