import DocExamples.Proofs.Literal.Calls
import DocExamples.Proofs.Script.ArrayElements
import DocExamples.Proofs.Script.NestedRows
import DocExamples.Proofs.Script.ReprLiteral
/-!
The text of an array as a call is read back as that array: its elements in order, and the shape that
the brackets show. A vector that is abbreviated gives its size instead.
-/
namespace DocExamples.Script

open Literal (IsItem IsElement Gap)
open Literal.Token (IsBlanks Scans)

variable {namedTuples : Bool} {depth indent : Nat} {texts : List String} {items : List Literal}

/-! ### Rows -/

/-- Each text is that of the element that is read as the item. -/
def ReadAs (namedTuples : Bool) (texts : List String) (items : List Literal) : Prop :=
  List.Forall₂ (fun text l => ∃ tokens, IsElement namedTuples text.toList tokens l) texts items

/-- What stands between rows, apart from a comma. -/
def rowBlanks (dimensions indent : Nat) : List Char :=
  List.replicate (dimensions + 1) '\n' ++ List.replicate (indent + 1) ' '

theorem isBlanks_rowBlanks (dimensions indent : Nat) : IsBlanks (rowBlanks dimensions indent) := by
  refine ⟨List.cons_ne_nil _ _, fun c member => ?_⟩
  rcases List.mem_append.mp member with feed | blank
  · exact .inr (List.eq_of_mem_replicate feed)
  · exact .inl (List.eq_of_mem_replicate blank)

theorem toList_rowSeparator {separator : String} {gap : Gap} (mark : separator.toList = gap.chars)
    (dimensions indent : Nat) :
    (separator ++ String.ofList (List.replicate (dimensions + 1) '\n') ++
      String.ofList (List.replicate (indent + 1) ' ')).toList =
        gap.chars ++ rowBlanks dimensions indent := by
  rw [String.toList_append, String.toList_append, String.toList_ofList, String.toList_ofList,
    List.append_assoc, mark]
  rfl

/-- The rows of the texts are those of the items. -/
theorem readAs_rows {n k : Nat} (elements : ReadAs namedTuples texts items) (positive : 0 < n)
    (length : texts.length = k * n) :
    List.Forall₂ (fun row items => row.length = n ∧ ReadAs namedTuples row items)
      (runsOf n texts.length texts) (runsOf n items.length items) := by
  obtain ⟨-, each⟩ := length_runsOf positive length (Nat.le_refl _)
  rw [← elements.length_eq]
  exact (List.forall₂_and_left _ _).mpr ⟨each, forall₂_runsOf elements⟩

theorem isItem_row (elements : ReadAs namedTuples texts items) (n : Nat) :
    ∃ tokens, IsItem namedTuples (depth + 2) (bracketed "," indent [n] texts).toList tokens
      (nested [n] items) := by
  have each : List.Forall₂ (fun text l => ∃ tokens,
      IsItem namedTuples (depth + 1) text.toList tokens l) texts items :=
    elements.imp fun _ _ ⟨tokens, element⟩ => ⟨tokens, element.isItem⟩
  obtain ⟨tokens, separated⟩ := Literal.separated_intercalate .single Value.commaSeparator each
  rw [bracketed, Value.toList_between]
  exact ⟨_, Literal.isItem_list separated⟩

theorem isItem_bracketed {shape : List Nat} (elements : ReadAs namedTuples texts items)
    (length : texts.length = volume shape) (filled : 0 < volume shape) :
    ∃ tokens, IsItem namedTuples (depth + 1 + shape.length)
      (bracketed "," indent shape texts).toList tokens (nested shape items) := by
  induction shape generalizing texts items indent with
  | nil =>
    cases elements with
    | nil => cases length
    | @cons text l texts items first others =>
      obtain ⟨tokens, element⟩ := first
      exact ⟨tokens, element.isItem⟩
  | cons n shape ih =>
    cases shape with
    | nil => exact isItem_row elements n
    | cons next rest =>
      have positive := (volume_pos_of_cons filled).2
      have rows : List.Forall₂ (fun text l => ∃ tokens,
          IsItem namedTuples (depth + 1 + (next :: rest).length) text.toList tokens l)
          ((runsOf (volume (next :: rest)) texts.length texts).map
            (bracketed "," (indent + 1) (next :: rest)))
          ((runsOf (volume (next :: rest)) items.length items).map (nested (next :: rest))) := by
        rw [List.forall₂_map_left_iff, List.forall₂_map_right_iff]
        exact (readAs_rows elements positive length).imp fun _ _ row => ih row.2 row.1 positive
      have comma : ",".toList = Gap.comma.chars := rfl
      have between := toList_rowSeparator comma rest.length indent
      obtain ⟨tokens, separated⟩ :=
        Literal.separated_intercalate (isBlanks_rowBlanks rest.length indent) between rows
      rw [bracketed, nested, Nat.max_eq_left positive, Value.toList_between]
      exact ⟨_, Literal.isItem_list separated⟩

/-! ### Elements that are shown -/

namespace Tensor

/-- The elements that the text of an array shows: all of them, or the first and the last ones of a
long vector. -/
def shown (t : Tensor) : List Float :=
  if t.isAbbreviated then
    t.data.toList.take edgeItems ++ t.data.toList.drop (t.size - edgeItems)
  else t.data.toList

end Tensor

/-- The items between the brackets, with the mark of those that are not shown. -/
def shownItems (abbreviated : Bool) (leaves : List Leaf) : List Literal :=
  if abbreviated then
    (leaves.take edgeItems).map .leaf ++ .ellipsis :: (leaves.drop edgeItems).map .leaf
  else leaves.map .leaf

theorem readAs_texts (namedTuples : Bool) (t : Tensor) :
    ∃ leaves, List.Forall₂ (ShowsElement (t.shown.any needsExponent) t.kind) t.shown leaves ∧
      ReadAs namedTuples t.texts (shownItems t.isAbbreviated leaves) := by
  obtain ⟨leaves, shows, read⟩ := elements_read namedTuples t.kind t.shown
  have read : ReadAs namedTuples (elementTexts t.kind t.shown) (leaves.map .leaf) :=
    List.forall₂_map_right_iff.mpr read
  refine ⟨leaves, shows, ?_⟩
  rw [Tensor.texts, shownItems]
  rw [Tensor.shown] at read
  cases abbreviated : t.isAbbreviated with
  | false => simpa [abbreviated] using read
  | true =>
    have mark := @Literal.isElement_ellipsis namedTuples
    rw [abbreviated, if_pos rfl] at read
    rw [if_pos rfl, if_pos rfl, List.map_take, List.map_drop]
    exact List.rel_append (List.forall₂_take _ read) (.cons ⟨_, mark⟩ (List.forall₂_drop _ read))

theorem flattenAll_shownItems (abbreviated : Bool) (leaves : List Leaf) :
    Literal.flattenAll (shownItems abbreviated leaves) = some (leaves, abbreviated) := by
  cases abbreviated with
  | false => exact flattenAll_leaves leaves
  | true =>
    have last : Literal.flattenAll (.ellipsis :: (leaves.drop edgeItems).map .leaf) =
        some (leaves.drop edgeItems, true) := by
      rw [Literal.flattenAll, flattenAll_leaves]
      rfl
    have whole := flattenAll_append (flattenAll_leaves (leaves.take edgeItems)) last
    rwa [List.take_append_drop] at whole

/-! ### Arrays -/

namespace Tensor

/-- An array of at least one element, as many as its shape says. -/
structure IsShaped (t : Tensor) : Prop where
  size_eq : t.size = volume t.shape
  filled : 0 < t.size
  dimensions_le : t.dimensions ≤ maxDimensions

variable {t : Tensor}

theorem IsShaped.length_shown (shaped : t.IsShaped) (whole : t.isAbbreviated = false) :
    t.shown.length = volume t.shape := by
  rw [shown, if_neg (by simp [whole]), Array.length_toList]
  exact shaped.size_eq

/-- The text of an array that is shown as a whole. -/
theorem isItem_repr (shaped : t.IsShaped) (whole : t.isAbbreviated = false) {leaves : List Leaf}
    (read : ReadAs namedTuples t.texts (leaves.map .leaf))
    (length : leaves.length = volume t.shape) :
    ∃ tokens, IsItem namedTuples Literal.maxDepth t.repr.toList tokens
      (.array ⟨.repr, leaves, some t.shape, none, none, false⟩) := by
  have filled : 0 < volume t.shape := shaped.size_eq ▸ shaped.filled
  have depth : ∃ depth, depth + 1 + t.shape.length = 255 := by
    have few : t.shape.length ≤ 32 := shaped.dimensions_le
    exact ⟨254 - t.shape.length, by omega⟩
  obtain ⟨depth, enough⟩ := depth
  have texts : t.texts.length = volume t.shape := by
    rw [read.length_eq, List.length_map, length]
  obtain ⟨tokens, data⟩ := @isItem_bracketed namedTuples depth "array(".length _ _ _ read texts filled
  rw [enough] at data
  have shape := inferShape_nested ((List.length_map _).trans length) filled
    (inferShape_leaves leaves)
  have scans := @Literal.scans_call _ 'a' ['r', 'r', 'a', 'y'] _ rfl (by decide) data.1
  refine ⟨_, ?_, Literal.reads_array data.2 (flatten_nested length filled) shape⟩
  rw [repr, if_neg shaped.filled.ne', whole, if_neg Bool.false_ne_true, Value.toList_between]
  exact scans

theorem IsShaped.shape_eq (shaped : t.IsShaped) (abbreviated : t.isAbbreviated = true) :
    t.shape = [t.size] := by
  have single : t.shape.length = 1 := by
    rw [isAbbreviated, Bool.and_eq_true, beq_iff_eq] at abbreviated
    exact abbreviated.1
  obtain ⟨n, shape⟩ := List.length_eq_one_iff.mp single
  have size := shaped.size_eq
  rw [shape] at size ⊢
  rw [size, volume_cons]
  exact congrArg (fun n => [n]) (Nat.mul_one n).symm

theorem trim_repr (t : Tensor) : Text.trim t.repr.toList = t.repr.toList := by
  have wrapped (body : String) : Text.trim ("array(" ++ body ++ ")").toList =
      ("array(" ++ body ++ ")").toList := by
    rw [Value.toList_between]
    exact Text.trim_wrapped (['r', 'r', 'a', 'y', '('] ++ body.toList) rfl rfl
  rw [repr]
  split
  · have shape : "array([], dtype=" ++ t.kind.name ++ ")" =
        "array(" ++ ("[], dtype=" ++ t.kind.name) ++ ")" := by
      rw [← String.append_assoc]
      rfl
    rw [shape]
    exact wrapped _
  · dsimp only
    split
    · have shape (body : String) : "array(" ++ body ++ ", shape=" ++ shapeText ", " t.shape ++ ")" =
          "array(" ++ (body ++ ", shape=" ++ shapeText ", " t.shape) ++ ")" := by
        simp only [String.append_assoc]
      rw [shape]
      exact wrapped _
    · exact wrapped _

/-- The text of a vector that is abbreviated. -/
theorem isItem_repr_abbreviated (shaped : t.IsShaped) (abbreviated : t.isAbbreviated = true)
    {leaves : List Leaf} (read : ReadAs namedTuples t.texts (shownItems true leaves)) {m : Nat}
    (size : Literal.dimension? (Literal.sizeLiteral t.size) = some m) :
    ∃ tokens, IsItem namedTuples Literal.maxDepth t.repr.toList tokens
      (.array ⟨.repr, leaves, none, some [m], none, true⟩) := by
  obtain ⟨tokens, data⟩ := @isItem_row namedTuples 253 "array(".length _ _ read t.size
  have flat := flattenAll_shownItems true leaves
  have vector := Literal.reads_vector data.2 flat size
  have scans := @Literal.scans_call _ 'a' ['r', 'r', 'a', 'y'] _ rfl (by decide)
    (Literal.scans_withSize data.1 t.size)
  have text : t.repr.toList = 'a' :: (['r', 'r', 'a', 'y'] ++ '(' ::
      ((bracketed "," "array(".length [t.size] t.texts).toList ++ ", shape=".toList ++
        Literal.sizeText t.size ++ [')'])) := by
    rw [repr, if_neg shaped.filled.ne', abbreviated, if_pos rfl, shaped.shape_eq abbreviated]
    simp [shapeText, Literal.sizeText, Decimal.digitChars]
  exact ⟨_, text ▸ scans, vector⟩

/-- What a session echoes of an array is read back as an array of the same style, with one leaf for
each element that is shown, in row-major order. The brackets show the shape of the array. A long
vector gives its size instead; that is read as a double, which is the size itself as far as doubles
have every whole number. -/
theorem parse?_array_repr (shaped : t.IsShaped) (namedTuples : Bool) :
    ∃ leaves, List.Forall₂ (ShowsElement (t.shown.any needsExponent) t.kind) t.shown leaves ∧
      (t.isAbbreviated = false → Literal.parse? t.repr namedTuples =
        some (.array ⟨.repr, leaves, some t.shape, none, none, false⟩)) ∧
      (t.isAbbreviated = true → t.size < UInt64.size → ∃ n, (t.size < 2 ^ 53 → n = t.size) ∧
        Literal.parse? t.repr namedTuples =
          some (.array ⟨.repr, leaves, none, some [n], none, true⟩)) := by
  obtain ⟨leaves, shows, read⟩ := readAs_texts namedTuples t
  refine ⟨leaves, shows, fun whole => ?_, fun abbreviated word => ?_⟩
  · rw [whole] at read
    have length := shows.length_eq.symm.trans (shaped.length_shown whole)
    obtain ⟨tokens, item⟩ := isItem_repr shaped whole read length
    exact Literal.parse?_eq_some item t.trim_repr
  · rw [abbreviated] at read
    obtain ⟨n, size, exactly⟩ := Literal.dimension?_sizeLiteral shaped.filled.ne' word
    obtain ⟨tokens, item⟩ := isItem_repr_abbreviated shaped abbreviated read size
    exact ⟨n, exactly, Literal.parse?_eq_some item t.trim_repr⟩

/-- A matrix with a number that is none. -/
def sampleMatrix : Tensor := ⟨#[1.0, -2.0, Binary64.nan, 4.5, 0.0, 0.25], [2, 3], .float⟩

def longVector : Tensor := ⟨Array.replicate 1001 1.0, [1001], .int⟩

theorem parse?_array_repr_samples :
    sampleMatrix.IsShaped ∧
      sampleMatrix.repr =
        "array([[  1.  ,  -2.  , nan   ],\n       [  4.5 ,   0.  ,   0.25]])" ∧
      (∃ leaves,
        List.Forall₂ (ShowsElement (sampleMatrix.shown.any needsExponent) .float)
          sampleMatrix.shown leaves ∧
        Literal.parse? sampleMatrix.repr false =
          some (.array ⟨.repr, leaves, some [2, 3], none, none, false⟩)) ∧
      longVector.IsShaped ∧
      ∃ leaves, List.Forall₂ (ShowsElement (longVector.shown.any needsExponent) .int)
          longVector.shown leaves ∧
        Literal.parse? longVector.repr false =
          some (.array ⟨.repr, leaves, none, some [1001], none, true⟩) := by
  have matrix : sampleMatrix.IsShaped := ⟨rfl, by decide, by decide⟩
  have size : longVector.size = 1001 := Array.size_replicate
  have vector : longVector.IsShaped := ⟨size, by omega, by decide⟩
  obtain ⟨leaves, shows, whole, -⟩ := parse?_array_repr matrix false
  obtain ⟨ends, showsEnds, -, short⟩ := parse?_array_repr vector false
  have abbreviated : longVector.isAbbreviated = true := by
    rw [isAbbreviated, size]
    rfl
  obtain ⟨n, same, read⟩ := short abbreviated (by rw [size]; decide)
  rw [same (by rw [size]; decide), size] at read
  exact ⟨matrix, by decide, ⟨leaves, shows, whole rfl⟩, vector, ends, showsEnds, read⟩

end Tensor

end DocExamples.Script
