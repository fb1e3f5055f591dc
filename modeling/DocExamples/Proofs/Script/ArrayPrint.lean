import DocExamples.Literal.Agreement
import DocExamples.Proofs.Literal.Printed
import DocExamples.Proofs.Script.ArrayRepr
/-!
What is printed of an array is read back as a printed array. There are two readings of text in
brackets, and the first that succeeds counts; without commas, brackets around at least two elements
are no list.
-/
namespace DocExamples.Script

open Literal (IsItem IsElement IsPart Opens Gap Separated printedSequence)
open Literal.Token (Scans IsBlanks)

variable {namedTuples : Bool} {dimensions count indent : Nat} {text : List Char}
  {tokens : List Literal.Token} {l : Literal} {texts : List String} {items : List Literal}

/-! ### Brackets without commas -/

/-- An element or a row between the brackets of an array, which has so many elements. Only a single
element is a value in the strict reading. -/
structure IsCell (namedTuples : Bool) (dimensions count : Nat) (text : List Char)
    (tokens : List Literal.Token) (l : Literal) : Prop where
  isPart : ∀ depth, IsPart (Literal.value namedTuples (depth + dimensions + 1))
    (printedSequence namedTuples (depth + dimensions)) text tokens l
  refused : 2 ≤ count → ∀ depth rest,
    Literal.value namedTuples (depth + dimensions + 1) (tokens ++ rest) = none
  reads : count = 1 → ∀ depth, Literal.Reads namedTuples (depth + dimensions + 1) tokens l

/-- A row with its brackets. -/
structure IsRow (namedTuples : Bool) (dimensions count : Nat) (text : List Char)
    (tokens : List Literal.Token) (l : Literal) : Prop where
  scans : Scans text tokens
  bracket : ∃ inside, tokens = .leftBracket :: inside
  printed : ∀ depth rest,
    printedSequence namedTuples (depth + dimensions) (tokens ++ rest) = some (l, rest)
  refused : 2 ≤ count → ∀ depth rest,
    Literal.value namedTuples (depth + dimensions + 1) (tokens ++ rest) = none
  reads : count = 1 → ∀ depth, Literal.Reads namedTuples (depth + dimensions + 1) tokens l

theorem isCell_element (element : IsElement namedTuples text tokens l) :
    IsCell namedTuples 0 1 text tokens l where
  isPart _ := element.isPart
  refused several := absurd several (by decide)
  reads _ := element.reads

theorem IsRow.isCell (row : IsRow namedTuples dimensions count text tokens l) :
    IsCell namedTuples dimensions count text tokens l where
  isPart depth := by
    obtain ⟨scans, ⟨inside, rfl⟩, printed, -, -⟩ := row
    exact Literal.isPart_row scans (printed depth)
  refused := row.refused
  reads := row.reads

theorem isRow_cells (filled : items ≠ [])
    (cells : Separated .nothing (IsCell namedTuples dimensions count) text tokens items) :
    IsRow namedTuples (dimensions + 1) (items.length * count) ('[' :: (text ++ [']']))
      (.leftBracket :: (tokens ++ [.rightBracket])) (.list items) where
  scans := by
    have scans := cells.scans fun _ _ _ cell => (cell.isPart 0).scans
    exact (scans.after (by decide) (by decide) rfl).before (by decide) rfl
  bracket := ⟨_, rfl⟩
  printed depth rest := by
    have parts := cells.imp fun _ _ _ cell => cell.isPart depth
    rw [List.cons_append, List.append_assoc]
    exact Literal.printedSequence_parts parts rest
  refused several depth rest := by
    rw [List.cons_append, List.append_assoc]
    cases cells with
    | nil => exact absurd rfl filled
    | last cell =>
      rw [List.length_singleton, Nat.one_mul] at several
      have opens := (cell.isPart 0).opens
      exact Literal.value_of_refused (opens.append _) (cell.refused several depth _)
    | cons between cell later =>
      rw [List.append_assoc]
      by_cases row : 2 ≤ count
      · have opens := (cell.isPart 0).opens
        exact Literal.value_of_refused (opens.append _) (cell.refused row depth _)
      · have single : count = 1 := by
          have : count ≠ 0 := by
            rintro rfl
            rw [Nat.mul_zero] at several
            exact absurd several (by decide)
          omega
        have next := later.opens fun _ _ _ cell => (cell.isPart 0).opens
        exact Literal.value_of_unseparated (cell.reads single depth) (next.append _)
  reads single depth := by
    obtain ⟨alone, one⟩ := mul_eq_one.mp single
    cases cells with
    | nil => exact absurd rfl filled
    | last cell => exact Literal.reads_list (.last ⟨(cell.isPart 0).scans, cell.reads one depth⟩)
    | cons between cell later => exact absurd alone (by simp)

/-! ### Arrays -/

theorem isRow_vector (elements : ReadAs namedTuples texts items) (filled : items ≠ []) (n : Nat) :
    ∃ tokens, IsRow namedTuples 1 items.length (bracketed "" indent [n] texts).toList tokens
      (nested [n] items) := by
  have each : List.Forall₂ (fun text l => ∃ tokens,
      IsCell namedTuples 0 1 text.toList tokens l) texts items :=
    elements.imp fun _ _ ⟨tokens, element⟩ => ⟨tokens, isCell_element element⟩
  have separator : ("" ++ " ").toList = Gap.nothing.chars ++ [' '] := rfl
  obtain ⟨tokens, separated⟩ := Literal.separated_intercalate .single separator each
  have row := isRow_cells filled separated
  rw [Nat.mul_one] at row
  rw [bracketed, Value.toList_between]
  exact ⟨_, row⟩

theorem isRow_bracketed {shape : List Nat} (some : shape ≠ [])
    (elements : ReadAs namedTuples texts items) (length : texts.length = volume shape)
    (filled : 0 < volume shape) :
    ∃ tokens, IsRow namedTuples shape.length (volume shape)
      (bracketed "" indent shape texts).toList tokens (nested shape items) := by
  induction shape generalizing texts items indent with
  | nil => exact absurd rfl some
  | cons n shape ih =>
    cases shape with
    | nil =>
      have count : items.length = volume [n] := elements.length_eq.symm.trans length
      rw [← count] at filled ⊢
      exact isRow_vector elements (List.ne_nil_of_length_pos filled) n
    | cons next rest =>
      have positive := volume_pos_of_cons filled
      have rows : List.Forall₂ (fun text l => ∃ tokens,
          IsCell namedTuples (next :: rest).length (volume (next :: rest)) text.toList tokens l)
          ((runsOf (volume (next :: rest)) texts.length texts).map
            (bracketed "" (indent + 1) (next :: rest)))
          ((runsOf (volume (next :: rest)) items.length items).map (nested (next :: rest))) := by
        rw [List.forall₂_map_left_iff, List.forall₂_map_right_iff]
        refine (readAs_rows elements positive.2 length).imp fun _ _ row => ?_
        obtain ⟨tokens, isRow⟩ := @ih (indent + 1) _ _ (List.cons_ne_nil _ _) row.2 row.1 positive.2
        exact ⟨tokens, isRow.isCell⟩
      obtain ⟨count, -⟩ := length_runsOf positive.2 (elements.length_eq.symm.trans length)
        (Nat.le_refl items.length)
      have nothing : "".toList = Gap.nothing.chars := rfl
      have between := toList_rowSeparator nothing rest.length indent
      obtain ⟨tokens, separated⟩ :=
        Literal.separated_intercalate (isBlanks_rowBlanks rest.length indent) between rows
      have some : ((runsOf (volume (next :: rest)) items.length items).map
          (nested (next :: rest))).length = n := by rw [List.length_map, count]
      have row := isRow_cells (List.ne_nil_of_length_pos (some ▸ positive.1)) separated
      rw [some] at row
      rw [bracketed, nested, Nat.max_eq_left positive.2, Value.toList_between]
      exact ⟨_, row⟩

namespace Tensor

variable {t : Tensor}

theorem isRow_print (shaped : t.IsShaped) (some : 0 < t.dimensions) (whole : t.isAbbreviated = false)
    {leaves : List Leaf} (shows : t.shown.length = leaves.length)
    (read : ReadAs namedTuples t.texts (leaves.map .leaf)) :
    ∃ tokens, IsRow namedTuples t.dimensions t.size t.print.toList tokens
      (nested t.shape (leaves.map .leaf)) := by
  have length : t.texts.length = volume t.shape := by
    rw [read.length_eq, List.length_map, ← shows]
    exact shaped.length_shown whole
  have filled : 0 < volume t.shape := shaped.size_eq ▸ shaped.filled
  have shape : t.shape ≠ [] := List.ne_nil_of_length_pos some
  rw [print, if_neg shaped.filled.ne', shaped.size_eq]
  exact isRow_bracketed shape read length filled

/-- A long vector shows its first and its last elements and a mark between them. -/
theorem isRow_print_short (shaped : t.IsShaped) (abbreviated : t.isAbbreviated = true)
    {leaves : List Leaf} (shows : t.shown.length = leaves.length)
    (read : ReadAs namedTuples t.texts (shownItems true leaves)) :
    ∃ tokens, IsRow namedTuples t.dimensions (edgeItems + edgeItems + 1) t.print.toList tokens
      (nested t.shape (shownItems true leaves)) := by
  have large : summaryThreshold < t.data.size := by
    rw [isAbbreviated, Bool.and_eq_true, decide_eq_true_eq] at abbreviated
    exact abbreviated.2
  have ends : t.shown.length = edgeItems + edgeItems := by
    rw [summaryThreshold] at large
    rw [shown, abbreviated, if_pos rfl, List.length_append, List.length_take, List.length_drop,
      Array.length_toList, size, edgeItems]
    omega
  have count : (shownItems true leaves).length = edgeItems + edgeItems + 1 := by
    rw [shownItems, if_pos rfl, List.length_append, List.length_cons, List.length_map,
      List.length_map, List.length_take, List.length_drop, ← shows, ends, edgeItems]
    rfl
  have filled : shownItems true leaves ≠ [] := List.ne_nil_of_length_pos (count ▸ Nat.succ_pos _)
  rw [print, if_neg shaped.filled.ne', dimensions, shaped.shape_eq abbreviated, ← count]
  exact isRow_vector read filled t.size

/-- The array that the printed text shows. -/
theorem arrayLiteral_print (shaped : t.IsShaped) {leaves : List Leaf}
    (shows : t.shown.length = leaves.length) :
    Literal.arrayLiteral (nested t.shape (shownItems t.isAbbreviated leaves)) .none .printed =
      some (.array ⟨.printed, leaves, if t.isAbbreviated then none else some t.shape, none, none,
        t.isAbbreviated⟩) := by
  cases abbreviated : t.isAbbreviated with
  | false =>
    have length := shows.symm.trans (shaped.length_shown abbreviated)
    have filled : 0 < volume t.shape := shaped.size_eq ▸ shaped.filled
    have shape := inferShape_nested ((List.length_map _).trans length) filled
      (inferShape_leaves leaves)
    exact Literal.arrayLiteral_whole rfl (flatten_nested length filled) shape
  | true =>
    rw [shaped.shape_eq abbreviated]
    exact Literal.arrayLiteral_short rfl rfl (flattenAll_shownItems true leaves)

theorem exists_brackets (some : 0 < t.dimensions) (filled : 0 < t.size) :
    ∃ body, t.print.toList = '[' :: (body ++ [']']) := by
  rw [print, if_neg filled.ne']
  match shape : t.shape with
  | [] =>
    rw [dimensions, shape] at some
    exact absurd some (Nat.lt_irrefl 0)
  | [n] =>
    rw [bracketed, Value.toList_between]
    exact ⟨_, rfl⟩
  | n :: next :: rest =>
    rw [bracketed, Value.toList_between]
    exact ⟨_, rfl⟩

theorem trim_print (some : 0 < t.dimensions) (filled : 0 < t.size) :
    Text.trim t.print.toList = t.print.toList := by
  obtain ⟨body, shape⟩ := exists_brackets some filled
  rw [shape]
  exact Text.trim_wrapped body rfl rfl

/-- Two elements or more are refused by the strict reading, and read by the other one. -/
theorem parse?_of_isRow (shaped : t.IsShaped) (some : 0 < t.dimensions)
    (row : IsRow namedTuples t.dimensions count t.print.toList tokens l) (several : 2 ≤ count)
    {a : Literal} (made : Literal.arrayLiteral l .none .printed = .some a) :
    Literal.parse? t.print namedTuples = .some a := by
  have few : t.dimensions ≤ 32 := shaped.dimensions_le
  have strict : 255 - t.dimensions + t.dimensions + 1 = Literal.maxDepth := by
    rw [Literal.maxDepth]
    omega
  have printed : 256 - t.dimensions + t.dimensions = Literal.maxDepth := by
    rw [Literal.maxDepth]
    omega
  have refused := row.refused several (255 - t.dimensions) []
  have read := row.printed (256 - t.dimensions) []
  rw [List.append_nil, strict] at refused
  rw [List.append_nil, printed] at read
  obtain ⟨body, shape⟩ := exists_brackets some shaped.filled
  refine Literal.parse?_eq_printed row.scans (trim_print some shaped.filled) ?_ ?_ refused read made
  · rw [shape]
    rfl
  · rw [shape, ← List.cons_append, List.getLast?_concat]

/-- A single element is read as nested lists around it. -/
theorem parse?_print_of_single (shaped : t.IsShaped) (some : 0 < t.dimensions) (single : t.size = 1)
    {leaves : List Leaf} (shows : t.shown.length = leaves.length)
    (read : ReadAs namedTuples t.texts (shownItems t.isAbbreviated leaves)) :
    Literal.parse? t.print namedTuples = .some (nested t.shape (leaves.map .leaf)) := by
  have whole : t.isAbbreviated = false := by
    rw [isAbbreviated, single]
    exact Bool.and_false _
  rw [whole] at read
  obtain ⟨tokens, row⟩ := isRow_print shaped some whole shows read
  have few : t.dimensions ≤ 32 := shaped.dimensions_le
  have strict : 255 - t.dimensions + t.dimensions + 1 = Literal.maxDepth := by
    rw [Literal.maxDepth]
    omega
  have reads := row.reads single (255 - t.dimensions)
  rw [strict] at reads
  exact Literal.parse?_eq_some ⟨row.scans, reads⟩ (trim_print some shaped.filled)

/-- What is printed of an array of two or more elements is read back as a printed array, with one
leaf for each element that is shown, in row-major order, and with the shape that the brackets show
unless the array is abbreviated. It is compared as an array, however many dimensions it has. A
single element is printed as a list of it would be, and is read as nested lists around it. -/
theorem parse?_array_print (shaped : t.IsShaped) (some : 0 < t.dimensions) (namedTuples : Bool) :
    ∃ leaves, List.Forall₂ (ShowsElement (t.shown.any needsExponent) t.kind) t.shown leaves ∧
      (2 ≤ t.size → ∃ a : ArrayLiteral,
        a = ⟨.printed, leaves, if t.isAbbreviated then none else .some t.shape, none, none,
          t.isAbbreviated⟩ ∧
        Literal.parse? t.print namedTuples = .some (.array a) ∧
        ∀ settings b, Literal.structurallyEqual settings (.array a) (.array b) =
          a.agrees settings b) ∧
      (t.size = 1 → Literal.parse? t.print namedTuples =
        .some (nested t.shape (leaves.map .leaf))) := by
  obtain ⟨leaves, shows, read⟩ := readAs_texts namedTuples t
  have length := shows.length_eq
  refine ⟨leaves, shows, fun several => ⟨_, rfl, ?_, fun settings b => ?_⟩, fun single => ?_⟩
  · have made := arrayLiteral_print shaped length
    cases abbreviated : t.isAbbreviated with
    | false =>
      rw [abbreviated] at read made
      obtain ⟨tokens, row⟩ := isRow_print shaped some abbreviated length read
      exact parse?_of_isRow shaped some row several made
    | true =>
      rw [abbreviated] at read made
      obtain ⟨tokens, row⟩ := isRow_print_short shaped abbreviated length read
      exact parse?_of_isRow shaped some row (by decide) made
  · simp [Literal.structurallyEqual, Literal.nesting, Literal.agrees]
  · exact parse?_print_of_single shaped some single length read

theorem parse?_array_print_sample :
    sampleMatrix.IsShaped ∧ 0 < sampleMatrix.dimensions ∧ 2 ≤ sampleMatrix.size ∧
      sampleMatrix.print = "[[  1.    -2.   nan   ]\n [  4.5    0.     0.25]]" ∧
      ∃ leaves, List.Forall₂ (ShowsElement (sampleMatrix.shown.any needsExponent) .float)
          sampleMatrix.shown leaves ∧
        Literal.parse? sampleMatrix.print true =
          some (.array ⟨.printed, leaves, some [2, 3], none, none, false⟩) := by
  have shaped : sampleMatrix.IsShaped := ⟨rfl, by decide, by decide⟩
  obtain ⟨leaves, shows, several, -⟩ := parse?_array_print shaped (by decide) true
  obtain ⟨a, rfl, read, -⟩ := several (by decide)
  exact ⟨shaped, by decide, by decide, by decide, leaves, shows, read⟩

/-- The matrix of one element. -/
def singleElement : Tensor := ⟨#[1.5], [1, 1], .float⟩

/-- Its text is not read as an array, but as lists that nest too deep to be compared. -/
theorem single_element_is_list :
    singleElement.IsShaped ∧ 0 < singleElement.dimensions ∧ singleElement.print = "[[1.5]]" ∧
      ∀ namedTuples, ∃ l, Literal.parse? singleElement.print namedTuples = some l ∧
        (∀ a, l ≠ .array a) ∧ ∀ settings, Literal.structurallyEqual settings l l = false := by
  have shaped : singleElement.IsShaped := ⟨rfl, by decide, by decide⟩
  refine ⟨shaped, by decide, by decide, fun namedTuples => ?_⟩
  obtain ⟨leaves, shows, read⟩ := readAs_texts namedTuples singleElement
  have parsed := parse?_print_of_single shaped (by decide) rfl shows.length_eq read
  obtain ⟨leaf, rfl⟩ := List.length_eq_one_iff.mp shows.length_eq.symm
  refine ⟨_, parsed, fun a same => ?_, fun settings => ?_⟩
  · cases same
  · rfl

end Tensor

end DocExamples.Script
