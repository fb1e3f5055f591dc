import DocExamples.Literal.Basic
import DocExamples.Settings
/-!
When printed values agree: the same form, and numbers within the tolerance of the settings.
-/
namespace DocExamples

/-- Numbers within the tolerance. What is no number agrees with what is no number, and infinities
agree with themselves only. -/
def Number.agrees (settings : Settings) (want got : Number) : Bool :=
  if settings.strictTypes && want.kind != got.kind then false
  else if want.value.isNaN || got.value.isNaN then want.value.isNaN && got.value.isNaN
  else if want.value.isInf || got.value.isInf then want.value == got.value
  else (want.value - got.value).abs ≤ settings.toleranceFor want.value

def Leaf.agrees (settings : Settings) : Leaf → Leaf → Bool
  | .number want, .number got => want.agrees settings got
  | want, got => want.same got

def Leaf.agreeAll (settings : Settings) : List Leaf → List Leaf → Bool
  | [], [] => true
  | want :: ws, got :: gs => want.agrees settings got && agreeAll settings ws gs
  | _, _ => false

/-- Equal, or one of them unknown. -/
def compatible {α : Type} [BEq α] : Option α → Option α → Bool
  | some a, some b => a == b
  | _, _ => true

/-- Arrays of one style whose known shapes are the same agree leaf by leaf. -/
def ArrayLiteral.agrees (settings : Settings) (want got : ArrayLiteral) : Bool :=
  want.style == got.style && !(settings.strictTypes && want.dtype != got.dtype) &&
    compatible want.declaredShape got.declaredShape && compatible want.shape got.shape &&
    Leaf.agreeAll settings want.leaves got.leaves

namespace Literal

mutual

/-- How many levels of containers a literal has. Arrays count as values without parts. -/
def nesting : Literal → Nat
  | .list items | .tuple items => nestingAll items + 1
  | .dict entries => nestingEntries entries + 1
  | .leaf _ | .ellipsis | .array _ => 0

def nestingAll : List Literal → Nat
  | [] => 0
  | item :: rest => max (nesting item) (nestingAll rest)

def nestingEntries : List (Literal × Literal) → Nat
  | [] => 0
  | (key, value) :: rest => max (max (nesting key) (nesting value)) (nestingEntries rest)

end

/-- The value under the first key that is the same as `key`. -/
def valueOf? (key : Literal) : List (Literal × Literal) → Option Literal
  | [] => none
  | (k, v) :: rest => if same k key then some v else valueOf? key rest

mutual

/-- Agreement without regard to nesting. The entries of a dictionary agree by key. -/
def agrees (settings : Settings) : Literal → Literal → Bool
  | .leaf want, .leaf got => want.agrees settings got
  | .list ws, .list gs => agreeAll settings ws gs
  | .tuple ws, .tuple gs => agreeAll settings ws gs
  | .dict ws, .dict gs => ws.length == gs.length && agreeEntries settings ws gs
  | .array want, .array got => want.agrees settings got
  | .ellipsis, .ellipsis => true
  | _, _ => false

def agreeAll (settings : Settings) : List Literal → List Literal → Bool
  | [], [] => true
  | want :: ws, got :: gs => agrees settings want got && agreeAll settings ws gs
  | _, _ => false

/-- Every entry of the first list agrees with the one under the same key of the second. -/
def agreeEntries (settings : Settings) :
    List (Literal × Literal) → List (Literal × Literal) → Bool
  | [], _ => true
  | (key, want) :: rest, entries =>
    (match valueOf? key entries with
      | some got => agrees settings want got
      | none => false) && agreeEntries settings rest entries

end

/-- The deepest nesting of containers that is compared by structure. -/
def maxComparedNesting : Nat := 1

/-- Agreement of literals that do not nest too deep for it. -/
def structurallyEqual (settings : Settings) (want got : Literal) : Bool :=
  nesting want ≤ maxComparedNesting && nesting got ≤ maxComparedNesting &&
    agrees settings want got

end Literal

end DocExamples
