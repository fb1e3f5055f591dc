import DocExamples.Output.Matching
import DocExamples.Proofs.Text.Lines
/-!
What ellipses stand for. Expected output is cut at its ellipses from left to right, and output
matches it exactly if it is the pieces in order with texts between them. The pieces in the middle
are searched for one after another, each at its first occurrence; an earlier occurrence leaves
more text for the pieces behind it, so that the search misses nothing.
-/
namespace DocExamples.Text

variable {separator text rest : List Char} {c : Char}

/-! ### Pieces -/

/-- A text cut at a separator, each time at its first occurrence in what is left of the text. -/
inductive Cut (separator : List Char) : List Char → List (List Char) → Prop where
  | last {text : List Char} (none : ¬separator <:+: text) : Cut separator text [text]
  | next {piece rest : List Char} {pieces : List (List Char)}
    (first : ¬separator <:+: piece ++ separator.dropLast) (later : Cut separator rest pieces) :
    Cut separator (piece ++ (separator ++ rest)) (piece :: pieces)

theorem piecesFrom_skip (width : Nat) (passed rest : List Char) :
    piecesFrom separator width passed.length (passed ++ rest) =
      piecesFrom separator width 0 rest := by
  induction passed with
  | nil => rfl
  | cons c passed ih => exact ih

theorem pieces_nil (some : separator ≠ []) : pieces separator [] = [[]] := by
  cases separator with
  | nil => exact absurd rfl some
  | cons => rfl

theorem pieces_separator_append (some : separator ≠ []) (rest : List Char) :
    pieces separator (separator ++ rest) = [] :: pieces separator rest := by
  cases separator with
  | nil => exact absurd rfl some
  | cons c tail =>
    have front : (c :: tail).isPrefixOf (c :: (tail ++ rest)) = true :=
      List.isPrefixOf_iff_prefix.mpr (List.prefix_append (c :: tail) rest)
    rw [List.cons_append, pieces, piecesFrom, if_pos front, piecesFrom_skip]
    rfl

theorem pieces_cons (some : separator ≠ []) (other : ¬separator <+: c :: rest) :
    pieces separator (c :: rest) = consHead c (pieces separator rest) := by
  cases separator with
  | nil => exact absurd rfl some
  | cons d tail =>
    have notFront : ¬(d :: tail).isPrefixOf (c :: rest) = true :=
      mt List.isPrefixOf_iff_prefix.mp other
    rw [pieces, piecesFrom, if_neg notFront]
    rfl

/-- A text is empty, begins with the separator, or begins with a character before it. -/
theorem separator_induction {motive : List Char → Prop} (some : separator ≠ []) (nil : motive [])
    (cut : ∀ rest, motive rest → motive (separator ++ rest))
    (cons : ∀ c rest, ¬separator <+: c :: rest → motive rest → motive (c :: rest))
    (text : List Char) : motive text := by
  induction size : text.length using Nat.strongRecOn generalizing text with
  | ind n ih =>
    subst size
    by_cases front : separator <+: text
    · obtain ⟨rest, rfl⟩ := front
      have filled := List.length_pos_iff.mpr some
      exact cut rest (ih rest.length (by rw [List.length_append]; omega) rest rfl)
    · cases text with
      | nil => exact nil
      | cons c rest => exact cons c rest front (ih rest.length (Nat.lt_succ_self _) rest rfl)

theorem cut_pieces (some : separator ≠ []) (text : List Char) :
    Cut separator text (pieces separator text) := by
  induction text using separator_induction some with
  | nil =>
    rw [pieces_nil some]
    exact .last (mt List.infix_nil.mp some)
  | cut rest ih =>
    rw [pieces_separator_append some]
    have first : ¬separator <:+: [] ++ separator.dropLast := by
      intro inside
      have short := inside.length_le
      have filled := List.length_pos_iff.mpr some
      rw [List.nil_append, List.length_dropLast] at short
      omega
    exact .next first ih
  | cons c rest other ih =>
    rw [pieces_cons some other]
    generalize pieces separator rest = parts at ih
    cases ih with
    | last none =>
      exact .last fun inside => (List.infix_cons_iff.mp inside).elim other none
    | @next piece rest parts first later =>
      have longer : ¬separator <:+: c :: piece ++ separator.dropLast := by
        intro inside
        refine (List.infix_cons_iff.mp inside).elim (fun front => other (front.trans ?_)) first
        have shorter : separator.dropLast <+: separator ++ rest :=
          (List.dropLast_prefix separator).trans (List.prefix_append _ _)
        exact (List.prefix_append_right_inj (c :: piece)).mpr shorter
      exact .next longer later

theorem pieces_of_cut (some : separator ≠ []) {parts : List (List Char)}
    (cut : Cut separator text parts) : pieces separator text = parts := by
  induction cut with
  | @last text none =>
    induction text with
    | nil => exact pieces_nil some
    | cons c rest ih =>
      have other : ¬separator <+: c :: rest := fun front => none front.isInfix
      rw [pieces_cons some other, ih fun inside => none (List.infix_cons inside)]
      rfl
  | @next piece rest parts first later ih =>
    induction piece with
    | nil => rw [List.nil_append, pieces_separator_append some, ih]
    | cons c piece pieceIh =>
      have other : ¬separator <+: c :: (piece ++ (separator ++ rest)) := by
        intro front
        have start : c :: (piece ++ separator.dropLast) <+: c :: (piece ++ (separator ++ rest)) := by
          have shorter : separator.dropLast <+: separator ++ rest :=
            (List.dropLast_prefix separator).trans (List.prefix_append _ _)
          exact (List.prefix_append_right_inj (c :: piece)).mpr shorter
        refine first (List.prefix_of_prefix_length_le front start ?_).isInfix
        rw [List.length_cons, List.length_append, List.length_dropLast]
        omega
      rw [List.cons_append, pieces_cons some other,
        pieceIh fun inside => first (List.infix_cons inside)]
      rfl

theorem exists_pieces (some : separator ≠ []) (text : List Char) :
    ∃ first rest, pieces separator text = first :: rest := by
  have cut := cut_pieces some text
  generalize pieces separator text = parts at cut
  cases cut with
  | last => exact ⟨_, _, rfl⟩
  | next => exact ⟨_, _, rfl⟩

/-! ### Search -/

/-- An occurrence that is found is one, and it is no later than any other. -/
theorem afterFirst?_of_occurs (gap piece after : List Char) :
    ∃ before more, afterFirst? piece (gap ++ (piece ++ after)) = some (more ++ after) ∧
      gap ++ (piece ++ after) = before ++ (piece ++ (more ++ after)) := by
  induction gap with
  | nil =>
    refine ⟨[], [], ?_, rfl⟩
    cases text : piece ++ after with
    | nil =>
      obtain ⟨rfl, rfl⟩ := List.append_eq_nil_iff.mp text
      rfl
    | cons c rest =>
      have front : piece.isPrefixOf (c :: rest) = true :=
        List.isPrefixOf_iff_prefix.mpr ⟨after, text⟩
      rw [List.nil_append, afterFirst?, if_pos front, ← text, List.drop_left]
      rfl
  | cons c gap ih =>
    by_cases front : piece <+: c :: (gap ++ (piece ++ after))
    · obtain ⟨tail, whole⟩ := front
      -- What stands behind the earlier occurrence is longer, so it ends in `after`.
      have longer : after <:+ tail := by
        have last : after <:+ c :: (gap ++ (piece ++ after)) := ⟨c :: gap ++ piece, by simp⟩
        refine List.suffix_of_suffix_length_le last ⟨piece, whole⟩ ?_
        have size := congrArg List.length whole
        simp only [List.length_append, List.length_cons] at size
        omega
      obtain ⟨more, rfl⟩ := longer
      refine ⟨[], more, ?_, whole.symm⟩
      have found : piece.isPrefixOf (c :: (gap ++ (piece ++ after))) = true :=
        List.isPrefixOf_iff_prefix.mpr ⟨more ++ after, whole⟩
      rw [List.cons_append, afterFirst?, if_pos found, ← whole, List.drop_left]
    · obtain ⟨before, more, found, whole⟩ := ih
      have notFound : ¬piece.isPrefixOf (c :: (gap ++ (piece ++ after))) = true :=
        mt List.isPrefixOf_iff_prefix.mp front
      refine ⟨c :: before, more, ?_, ?_⟩
      · rw [List.cons_append, afterFirst?, if_neg notFound, found]
      · rw [List.cons_append, whole, List.cons_append]

theorem of_afterFirst? {piece after : List Char} (found : afterFirst? piece text = some after) :
    ∃ gap, text = gap ++ (piece ++ after) := by
  induction text with
  | nil =>
    rw [afterFirst?] at found
    split at found
    · next empty =>
      rw [List.isEmpty_iff.mp empty, ← Option.some.inj found]
      exact ⟨[], rfl⟩
    · cases found
  | cons c rest ih =>
    rw [afterFirst?] at found
    split at found
    · next front =>
      obtain ⟨tail, whole⟩ := List.isPrefixOf_iff_prefix.mp front
      rw [← whole, List.drop_left, Option.some.injEq] at found
      exact ⟨[], by rw [← found, whole, List.nil_append]⟩
    · obtain ⟨gap, same⟩ := ih found
      exact ⟨c :: gap, by rw [same, List.cons_append]⟩

end DocExamples.Text

namespace DocExamples.Output

open Text

/-! ### Pieces with texts between them -/

/-- Each text with its piece behind it: `s₁ p₁ … sₖ pₖ`. -/
def weave (gaps pieces : List (List Char)) : List Char :=
  (List.zipWith (· ++ ·) gaps pieces).flatten

theorem weave_cons (gap piece : List Char) (gaps pieces : List (List Char)) :
    weave (gap :: gaps) (piece :: pieces) = gap ++ (piece ++ weave gaps pieces) := by
  rw [weave, List.zipWith_cons_cons, List.flatten_cons, List.append_assoc]
  rfl

theorem weave_concat {gaps pieces : List (List Char)} (same : gaps.length = pieces.length)
    (gap piece : List Char) :
    weave (gaps ++ [gap]) (pieces ++ [piece]) = weave gaps pieces ++ (gap ++ piece) := by
  rw [weave, List.zipWith_append same, List.flatten_append]
  simp [weave]

/-- The search for pieces one after another finds them wherever they occur in order. -/
theorem occurInOrder_iff (pieces : List (List Char)) (text : List Char) :
    occurInOrder pieces text = true ↔
      ∃ gaps after, gaps.length = pieces.length ∧ text = weave gaps pieces ++ after := by
  induction pieces generalizing text with
  | nil =>
    refine iff_of_true rfl ⟨[], text, rfl, ?_⟩
    rfl
  | cons piece pieces ih =>
    constructor
    · intro inOrder
      rw [occurInOrder] at inOrder
      split at inOrder
      · next rest found =>
        obtain ⟨gap, rfl⟩ := of_afterFirst? found
        obtain ⟨gaps, after, same, rfl⟩ := (ih rest).mp inOrder
        refine ⟨gap :: gaps, after, congrArg (· + 1) same, ?_⟩
        rw [weave_cons, List.append_assoc, List.append_assoc]
      · cases inOrder
    · rintro ⟨gaps, after, same, rfl⟩
      cases gaps with
      | nil => cases same
      | cons gap gaps =>
        have same : gaps.length = pieces.length := Nat.succ.inj same
        rw [weave_cons, List.append_assoc, List.append_assoc]
        obtain ⟨before, more, found, -⟩ :=
          afterFirst?_of_occurs gap piece (weave gaps pieces ++ after)
        rw [occurInOrder, found]
        -- The first text of those that follow takes up what was left over before it.
        refine (ih _).mpr ?_
        cases pieces with
        | nil => exact ⟨[], _, rfl, rfl⟩
        | cons next pieces =>
          cases gaps with
          | nil => cases same
          | cons nextGap gaps =>
            refine ⟨(more ++ nextGap) :: gaps, after, same, ?_⟩
            simp only [weave_cons, List.append_assoc]

theorem matchPieces_iff (first : List Char) (rest : List (List Char)) (got : List Char) :
    matchPieces (first :: rest) got = true ↔
      ∃ gaps, gaps.length = rest.length ∧ got = first ++ weave gaps rest := by
  rcases List.eq_nil_or_concat rest with rfl | ⟨middle, last, rfl⟩
  · rw [matchPieces, beq_iff_eq]
    constructor
    · rintro rfl
      exact ⟨[], rfl, (List.append_nil first).symm⟩
    · rintro ⟨gaps, same, rfl⟩
      rw [List.length_eq_zero_iff.mp same]
      exact (List.append_nil first).symm
  · have unfolded : matchPieces (first :: (middle ++ [last])) got =
        (first.isPrefixOf got && last.isSuffixOf got &&
          decide (first.length + last.length ≤ got.length) &&
          occurInOrder middle
            ((got.drop first.length).take (got.length - first.length - last.length))) := by
      cases middle with
      | nil => rfl
      | cons next middle =>
        rw [List.cons_append, matchPieces, ← List.cons_append]
        simp only [List.dropLast_concat, List.getLastD_concat]
    rw [List.concat_eq_append, unfolded]
    simp only [Bool.and_eq_true, decide_eq_true_eq, List.isPrefixOf_iff_prefix,
      List.isSuffixOf_iff_suffix, occurInOrder_iff]
    have between (inner : List Char) : ((first ++ (inner ++ last)).drop first.length).take
        ((first ++ (inner ++ last)).length - first.length - last.length) = inner := by
      have room : (first ++ (inner ++ last)).length - first.length - last.length =
          inner.length := by
        simp only [List.length_append]
        omega
      rw [room, List.drop_left, List.take_left]
    constructor
    · rintro ⟨⟨⟨⟨tail, rfl⟩, ends⟩, apart⟩, gaps, after, same, inner⟩
      -- Both ends are found, and there is room for both, so that they do not overlap.
      obtain ⟨center, rfl⟩ : last <:+ tail := by
        refine List.suffix_of_suffix_length_le ends ⟨first, rfl⟩ ?_
        rw [List.length_append] at apart
        omega
      rw [between] at inner
      refine ⟨gaps ++ [after], ?_, ?_⟩
      · rw [List.length_append, List.length_append, same]
        rfl
      · rw [inner, weave_concat same, List.append_assoc]
    · rintro ⟨gaps, same, rfl⟩
      rcases List.eq_nil_or_concat gaps with rfl | ⟨gaps, after, rfl⟩
      · simp at same
      · have same : gaps.length = middle.length := by simpa using same
        rw [List.concat_eq_append, weave_concat same, ← List.append_assoc (weave gaps middle),
          between]
        refine ⟨⟨⟨⟨_, rfl⟩, ?_⟩, ?_⟩, gaps, after, same, rfl⟩
        · exact ⟨first ++ (weave gaps middle ++ after), by simp⟩
        · simp only [List.length_append]
          omega

theorem ellipsisMarker_ne_nil : ellipsisMarker ≠ [] := by decide

variable {want got : List Char}

@[simp]
theorem ellipsisMatches_nil : ellipsisMatches [] got = true ↔ got = [] := by
  rw [ellipsisMatches, pieces_nil ellipsisMarker_ne_nil, matchPieces, beq_iff_eq]
  exact eq_comm

theorem ellipsisMatches_cons {c : Char} (other : ¬ellipsisMarker <+: c :: want) :
    ellipsisMatches (c :: want) got = true ↔
      ∃ later, got = c :: later ∧ ellipsisMatches want later = true := by
  obtain ⟨first, rest, parts⟩ := exists_pieces ellipsisMarker_ne_nil want
  simp only [ellipsisMatches, pieces_cons ellipsisMarker_ne_nil other, parts, consHead,
    matchPieces_iff]
  constructor
  · rintro ⟨gaps, same, rfl⟩
    exact ⟨first ++ weave gaps rest, rfl, gaps, same, rfl⟩
  · rintro ⟨later, rfl, gaps, same, rfl⟩
    exact ⟨gaps, same, rfl⟩

theorem ellipsisMatches_marker_append : ellipsisMatches (ellipsisMarker ++ want) got = true ↔
    ∃ text later, got = text ++ later ∧ ellipsisMatches want later = true := by
  obtain ⟨first, rest, parts⟩ := exists_pieces ellipsisMarker_ne_nil want
  simp only [ellipsisMatches, pieces_separator_append ellipsisMarker_ne_nil, parts,
    matchPieces_iff]
  constructor
  · rintro ⟨gaps, same, rfl⟩
    cases gaps with
    | nil => cases same
    | cons text gaps => exact ⟨text, _, weave_cons .., gaps, Nat.succ.inj same, rfl⟩
  · rintro ⟨text, later, rfl, gaps, same, rfl⟩
    exact ⟨text :: gaps, congrArg (· + 1) same, (weave_cons ..).symm⟩

/-- Expected output is cut at its ellipses in one way, and output matches exactly if it is the
pieces in order with texts between them. -/
theorem ellipsisMatches_iff (want got : List Char) :
    ∃ first rest, Cut ellipsisMarker want (first :: rest) ∧
      (∀ parts, Cut ellipsisMarker want parts → parts = first :: rest) ∧
      (ellipsisMatches want got = true ↔
        ∃ gaps, gaps.length = rest.length ∧ got = first ++ weave gaps rest) := by
  have cut := cut_pieces ellipsisMarker_ne_nil want
  have unique (parts : List (List Char)) (other : Cut ellipsisMarker want parts) :
      parts = pieces ellipsisMarker want :=
    (pieces_of_cut ellipsisMarker_ne_nil other).symm
  rw [ellipsisMatches]
  generalize pieces ellipsisMarker want = parts at cut unique
  cases cut with
  | last none => exact ⟨want, [], .last none, unique, matchPieces_iff ..⟩
  | next first later => exact ⟨_, _, .next first later, unique, matchPieces_iff ..⟩

/-- The two ends may not overlap. -/
example : ellipsisMatches "aa...aa".toList "aaa".toList = false := by decide

end DocExamples.Output
