/-!
Sets of characters, written as spans of code points.
-/
namespace DocExamples.Text

/-- Spans of code points, both ends included. -/
abbrev Spans := List (Nat × Nat)

def Spans.has (spans : Spans) (c : Char) : Bool :=
  spans.any fun (first, last) => first ≤ c.toNat && c.toNat ≤ last

theorem Spans.has_iff (spans : Spans) (c : Char) :
    spans.has c = true ↔ ∃ span ∈ spans, span.1 ≤ c.toNat ∧ c.toNat ≤ span.2 := by
  simp [Spans.has]

end DocExamples.Text
