import DocExamples.Proofs.Output.Relaxations
import Mathlib.Data.List.Basic
/-!
With unified blanks, output is compared word by word. Everything about the words of a text follows
from one equation: a blank ends a word. So words joined by blanks are read back, blank lines hold no
words, and neither making blank lines equal nor an early answer for equal texts changes what is
compared.
-/
namespace DocExamples.Text

variable {c : Char} {text word back : List Char}

/-! ### Words -/

theorem words_append_blank (blank : isBlank c = true) (front rest : List Char) :
    words (front ++ c :: rest) = words front ++ words rest := by
  rw [words, fields_append_cons blank, List.filter_append]
  rfl

theorem words_append_allBlank (front : List Char) (blank : allBlank back = true) :
    words (front ++ back) = words front := by
  induction back generalizing front with
  | nil => rw [List.append_nil]
  | cons c back ih =>
    simp only [allBlank, List.all_cons, Bool.and_eq_true] at blank
    have nothing : words back = [] := ih [] blank.2
    rw [words_append_blank blank.1, nothing, List.append_nil]

theorem words_of_allBlank (blank : allBlank text = true) : words text = [] :=
  words_append_allBlank [] blank

theorem mem_words (member : word ∈ words text) : word ≠ [] ∧ ∀ c ∈ word, isBlank c = false := by
  obtain ⟨inside, some⟩ := List.mem_filter.mp member
  refine ⟨by simpa using some, fun c here => (mem_of_mem_fields inside c here).2⟩

theorem words_of_whole (some : word ≠ []) (whole : ∀ c ∈ word, isBlank c = false) :
    words word = [word] := by
  rw [words, fields_of_whole whole]
  simp [some]

/-- The words of parts with a blank between neighbours. -/
theorem words_join (blank : isBlank c = true) (parts : List (List Char)) :
    words (join [c] parts) = parts.flatMap words := by
  induction parts with
  | nil => rfl
  | cons part parts ih =>
    cases parts with
    | nil => exact (List.append_nil _).symm
    | cons next parts =>
      rw [join_cons (List.cons_ne_nil _ _), List.append_assoc, List.singleton_append,
        words_append_blank blank, ih]
      rfl

theorem words_eq_flatMap (text : List Char) :
    words text = (fields (· == '\n') text).flatMap words := by
  rw [← words_join (c := '\n') rfl, join_fields]

theorem exists_trimEnd_append (text : List Char) :
    ∃ back, allBlank back = true ∧ text = trimEnd text ++ back := by
  refine ⟨(text.reverse.takeWhile isBlank).reverse, ?_, ?_⟩
  · rw [allBlank, List.all_reverse]
    exact List.all_takeWhile
  · rw [trimEnd, ← List.reverse_append, List.takeWhile_append_dropWhile, List.reverse_reverse]

theorem words_trimEnd (text : List Char) : words (trimEnd text) = words text := by
  obtain ⟨back, blank, same⟩ := exists_trimEnd_append text
  calc
    words (trimEnd text) = words (trimEnd text ++ back) := (words_append_allBlank _ blank).symm
    _ = words text := by rw [← same]

end DocExamples.Text

namespace DocExamples.Output

open Text

variable {text want want' got got' : List Char} {flags : Flags}

/-! ### Unified blanks -/

theorem words_collapse (text : List Char) : words (collapse text) = words text := by
  have single : ∀ word ∈ words text, words word = [word] := by
    intro word member
    exact words_of_whole (mem_words member).1 (mem_words member).2
  rw [collapse, words_join (c := ' ') rfl, List.flatMap_congr single, List.flatMap_singleton']

/-- Unified blanks leave of a text exactly its words. -/
theorem collapse_eq_iff (first second : List Char) :
    collapse first = collapse second ↔ words first = words second := by
  constructor
  · intro same
    rw [← words_collapse first, same, words_collapse]
  · intro same
    rw [collapse, same, collapse]

/-! ### Blank lines -/

theorem words_emptyLines {blank : List Char → Bool}
    (wordless : ∀ line ∈ fields (· == '\n') text, blank line = true → words line = []) :
    words (emptyLines blank text) = words text := by
  rw [emptyLines, words_join (c := '\n') rfl, List.flatMap_map, words_eq_flatMap text]
  apply List.flatMap_congr
  intro line member
  split
  · next isBlank => exact (wordless line member isBlank).symm
  · rfl

/-- A line that is marked as blank has the mark as its word. -/
theorem words_of_marked {line : List Char} (marked : (trimEnd line == blankLineMarker) = true) :
    words line = [blankLineMarker] := by
  rw [← words_trimEnd, eq_of_beq marked]
  decide

/-- Making blank lines equal takes no word away, unless it is the mark of one. -/
theorem words_unmarkBlankLines (unmarked : blankLineMarker ∉ words want)
    (same : unmarkBlankLines flags want got = (want', got')) :
    words want' = words want ∧ words got' = words got := by
  rw [unmarkBlankLines] at same
  split at same
  · cases same
    exact ⟨rfl, rfl⟩
  · cases same
    refine ⟨words_emptyLines fun line member marked => ?_,
      words_emptyLines fun line _ blank => words_of_allBlank blank⟩
    refine absurd ?_ unmarked
    rw [words_eq_flatMap]
    exact List.mem_flatMap.mpr ⟨line, member, by simp [words_of_marked marked]⟩

/-! ### Verdicts -/

/-- With unified blanks, output matches if it has the expected words, or if ellipses are filled in
the words joined by spaces. -/
theorem textMatches_iff_words (normalize : flags.has .normalizeWhitespace = true)
    (unmarked : blankLineMarker ∉ words want) :
    textMatches want got flags = true ↔ words want = words got ∨
      flags.has .ellipsis = true ∧ ellipsisMatches (collapse want) (collapse got) = true := by
  obtain ⟨⟨want', got'⟩, blank⟩ : ∃ texts, unmarkBlankLines flags want got = texts := ⟨_, rfl⟩
  obtain ⟨sameWant, sameGot⟩ := words_unmarkBlankLines unmarked blank
  have wanted : collapse want' = collapse want := (collapse_eq_iff _ _).mpr sameWant
  have given : collapse got' = collapse got := (collapse_eq_iff _ _).mpr sameGot
  rw [textMatches_iff blank (unifyBlanks_of_has normalize), wanted, given, collapse_eq_iff]
  constructor
  · rintro (same | same | same | found)
    · exact .inl (congrArg words same)
    · exact .inl (by rw [← sameWant, same, sameGot])
    · exact .inl same
    · exact .inr found
  · rintro (same | found)
    · exact .inr (.inr (.inl same))
    · exact .inr (.inr (.inr found))

/-- With unified blanks, the verdict depends on the words of both texts only: line breaks,
indentation, blank lines and blanks at the ends change nothing. -/
theorem textMatches_wordwise (normalize : flags.has .normalizeWhitespace = true)
    (sameWant : words want = words want') (sameGot : words got = words got')
    (unmarked : blankLineMarker ∉ words want) :
    textMatches want got flags = textMatches want' got' flags ∧
      (textMatches want got flags = true ↔ words want = words got ∨ flags.has .ellipsis = true ∧
        ellipsisMatches (join [' '] (words want)) (join [' '] (words got)) = true) := by
  refine ⟨?_, textMatches_iff_words normalize unmarked⟩
  have unmarked' : blankLineMarker ∉ words want' := sameWant ▸ unmarked
  have wanted : collapse want = collapse want' := (collapse_eq_iff _ _).mpr sameWant
  have given : collapse got = collapse got' := (collapse_eq_iff _ _).mpr sameGot
  rw [Bool.eq_iff_iff, textMatches_iff_words normalize unmarked,
    textMatches_iff_words normalize unmarked', wanted, given, sameWant, sameGot]

/-- A list that is broken differently, with an ellipsis and with blanks around and between. -/
theorem textMatches_wordwise_broken :
    let flags := Flags.ofList [.normalizeWhitespace, .ellipsis]
    let want := "[1, ...\n 3]\n".toList
    let want' := "[1, ... 3]".toList
    let got := "[1, 2, 3]\n".toList
    let got' := "\n  [1,\t2,\n\n 3] \n".toList
    flags.has .normalizeWhitespace = true ∧ words want = words want' ∧ words got = words got' ∧
      blankLineMarker ∉ words want ∧ textMatches want got flags = textMatches want' got' flags ∧
      textMatches want' got' flags = true := by
  intro flags want want' got got'
  have normalize : flags.has .normalizeWhitespace = true := by decide
  have sameWant : words want = words want' := by decide
  have sameGot : words got = words got' := by decide
  have unmarked : blankLineMarker ∉ words want := by decide
  obtain ⟨same, -⟩ := textMatches_wordwise normalize sameWant sameGot unmarked
  exact ⟨normalize, sameWant, sameGot, unmarked, same, by decide⟩

end DocExamples.Output
