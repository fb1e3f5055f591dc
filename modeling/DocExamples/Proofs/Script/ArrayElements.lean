import DocExamples.Proofs.Literal.Scalars
import DocExamples.Script.TensorText
/-!
The elements of an array as text: between the blanks that align them stand texts of truth values,
whole numbers and doubles, which are read as such.
-/
namespace DocExamples.Script

open Literal Literal.Token Text Decimal

/-! ### Numbers with eight places -/

theorem signed_append (negative : Bool) (text rest : List Char) :
    signed negative text ++ rest = signed negative (text ++ rest) := by
  cases negative <;> rfl

theorem isDoubleText_fixedElement (x : Float) :
    IsDoubleText ((fixedElement x).1 ++ (fixedElement x).2) := by
  unfold fixedElement
  match Binary64.parts x with
  | .nan => exact .nan
  | .infinite negative =>
    have special := IsDoubleText.infinity negative
    rwa [← List.append_nil (specialText negative)] at special
  | .finite negative mantissa exponent =>
    obtain ⟨filled, allWhole, allFraction⟩ := allDigits_fixed elementPlaces mantissa exponent
    dsimp only
    generalize fixed elementPlaces mantissa exponent = shown at *
    obtain ⟨whole, fraction⟩ := shown
    rw [signed_append]
    exact .number negative
      (isFloatText_point filled allWhole (allDigits_dropTrailingZeros allFraction))

theorem isDoubleText_scientificElement (x : Float) : IsDoubleText (scientificElement x).toList := by
  unfold scientificElement
  match Binary64.parts x with
  | .nan => exact .nan
  | .infinite negative =>
    rw [String.toList_ofList]
    exact .infinity negative
  | .finite negative mantissa exponent =>
    obtain ⟨filled, all⟩ := allDigits_fixedScientific elementPlaces mantissa exponent
    dsimp only
    generalize fixedScientific elementPlaces mantissa exponent = shown at *
    obtain ⟨digits, power⟩ := shown
    have first : digits.take 1 ≠ [] := by simpa using filled
    have fraction := allDigits_dropTrailingZeros (all.drop 1)
    have form := IsFloatText.mk first (all.take 1) (.point fraction)
      (@isExponent_render elementExponent rfl power) fun _ => List.cons_ne_nil _ _
    rw [String.toList_ofList, List.append_assoc, List.cons_append]
    exact .number negative form

/-! ### Elements between blanks -/

/-- The text of an element without the blanks around it; `exponents` tells whether the numbers of
its array are written with exponents. -/
def elementText (kind : ElementKind) (exponents : Bool) (x : Float) : List Char :=
  match kind with
  | .bool => (boolText (x != 0.0)).toList
  | .int => (intText (Binary64.toInt64 x)).toList
  | .float =>
    if exponents then (scientificElement x).toList else (fixedElement x).1 ++ (fixedElement x).2

/-- Only blanks stand around the inner text. -/
def IsPadded (text : String) (inner : List Char) : Prop :=
  ∃ left right, text.toList = List.replicate left ' ' ++ (inner ++ List.replicate right ' ')

theorem isPadded_padLeft (width : Nat) (text : String) :
    IsPadded (padLeft width text) text.toList := by
  refine ⟨width - text.length, 0, ?_⟩
  rw [padLeft, String.toList_ofList, List.replicate_zero, List.append_nil]

theorem isPadded_columns (wholeWidth fractionWidth : Nat) (whole fraction : List Char) :
    IsPadded (padLeft wholeWidth (String.ofList whole) ++
      padRight fractionWidth (String.ofList fraction)) (whole ++ fraction) := by
  refine ⟨wholeWidth - (String.ofList whole).length,
    fractionWidth - (String.ofList fraction).length, ?_⟩
  rw [padLeft, padRight, String.toList_append]
  simp only [String.toList_ofList, List.append_assoc]

theorem padded_alignRight (items : List String) :
    List.Forall₂ (fun item text => IsPadded text item.toList) items (alignRight items) := by
  rw [alignRight, List.forall₂_map_right_iff, List.forall₂_same]
  exact fun item _ => isPadded_padLeft _ item

theorem padded_floatElements (xs : List Float) :
    List.Forall₂ (fun x text => IsPadded text (elementText .float (xs.any needsExponent) x)) xs
      (floatElements xs) := by
  unfold floatElements
  dsimp only [elementText]
  split
  · next exponents => exact List.forall₂_map_left_iff.mp (padded_alignRight _)
  · next places =>
    rw [List.forall₂_map_right_iff, List.forall₂_map_right_iff, List.forall₂_same]
    exact fun x _ => isPadded_columns _ _ _ _

theorem padded_elementTexts (kind : ElementKind) (xs : List Float) :
    List.Forall₂ (fun x text => IsPadded text (elementText kind (xs.any needsExponent) x)) xs
      (elementTexts kind xs) := by
  cases kind with
  | bool =>
    have padded := padded_alignRight (xs.map fun x => boolText (x != 0.0))
    exact List.forall₂_map_left_iff.mp padded
  | int =>
    have padded := padded_alignRight (xs.map fun x => intText (Binary64.toInt64 x))
    exact List.forall₂_map_left_iff.mp padded
  | float => exact padded_floatElements xs

/-! ### Elements that are read -/

/-- The leaf that an element is shown as: a truth value, a whole number, or the number that its
text stands for. -/
inductive ShowsElement (exponents : Bool) : ElementKind → Float → Leaf → Prop where
  | bool (x : Float) : ShowsElement exponents .bool x (.bool (x != 0.0))
  | int (x : Float) : ShowsElement exponents .int x
    (.number ⟨Binary64.ofInt (Binary64.toInt64 x).toInt, .int⟩)
  | float {x y : Float} (read : readFloat? (elementText .float exponents x) = some y) :
    ShowsElement exponents .float x (.number ⟨y, .float⟩)

variable {namedTuples : Bool}

theorem scans_padded {text : String} {inner : List Char} {tokens : List Literal.Token}
    (padded : IsPadded text inner) (scans : Scans inner tokens) : Scans text.toList tokens := by
  obtain ⟨left, right, shape⟩ := padded
  intro rest more delimited later
  have blank (n : Nat) : ∀ c ∈ List.replicate n ' ', isSkipped c = true := by
    intro c member
    rw [List.eq_of_mem_replicate member]
    rfl
  rw [shape, List.append_assoc, List.append_assoc]
  refine .blanks (blank left) (scans _ _ ?_ (.blanks (blank right) later))
  cases right with
  | zero => exact delimited
  | succ right => exact delimited_cons (by decide)

theorem isElement_elementText (kind : ElementKind) (exponents : Bool) (x : Float) :
    ∃ leaf tokens, ShowsElement exponents kind x leaf ∧
      IsElement namedTuples (elementText kind exponents x) tokens (.leaf leaf) := by
  cases kind with
  | bool => exact ⟨_, _, .bool x, isElement_bool _⟩
  | int =>
    obtain ⟨tokens, element⟩ := isElement_int (Binary64.toInt64 x)
    exact ⟨_, tokens, .int x, element⟩
  | float =>
    have form : IsDoubleText (elementText .float exponents x) := by
      cases exponents with
      | false => exact isDoubleText_fixedElement x
      | true => exact isDoubleText_scientificElement x
    obtain ⟨y, tokens, read, element⟩ := isElement_float form
    exact ⟨_, tokens, .float read, element⟩

/-- The texts of elements are read as what they show. -/
theorem elements_read (namedTuples : Bool) (kind : ElementKind) (xs : List Float) :
    ∃ leaves, List.Forall₂ (ShowsElement (xs.any needsExponent) kind) xs leaves ∧
      List.Forall₂ (fun text leaf => ∃ tokens, IsElement namedTuples text.toList tokens (.leaf leaf))
        (elementTexts kind xs) leaves := by
  have padded := padded_elementTexts kind xs
  generalize xs.any needsExponent = exponents, elementTexts kind xs = texts at padded ⊢
  induction padded with
  | nil => exact ⟨[], .nil, .nil⟩
  | @cons x text xs texts inner padded ih =>
    obtain ⟨leaf, tokens, shows, element⟩ := isElement_elementText kind exponents x
    obtain ⟨leaves, all, read⟩ := ih
    have here := scans_padded inner element.scans
    exact ⟨leaf :: leaves, .cons shows all, .cons ⟨tokens, here, element.reads, element.starts⟩ read⟩

end DocExamples.Script
