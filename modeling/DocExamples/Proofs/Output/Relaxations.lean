import DocExamples.Proofs.Output.Ellipsis
/-!
Options that relax the comparison of texts. Ellipses accept more output and lose none. Unified
blanks lose what ellipses accepted only where ellipses are a word of their own: `a ... b` accepts
two blanks between `a` and `b` as an ellipsis that stands for nothing, and unifying the blanks
leaves a single one for the two of the expected text.
-/
namespace DocExamples.Output

open Text

/-! ### Unified blanks -/

/-- What stands before the next character of a text. -/
inductive Edge where
  /-- Nothing but blanks. -/
  | start
  /-- A visible character. -/
  | visible
  /-- Blanks, and visible text before them. -/
  | blank
  deriving DecidableEq

namespace Edge

def next (e : Edge) (c : Char) : Edge :=
  if isBlank c then if e = start then start else blank else visible

def past (e : Edge) (text : List Char) : Edge := text.foldl next e

/-- The space before the next visible character. -/
def space (e : Edge) : List Char := if e = blank then [' '] else []

variable {e : Edge} {c : Char} {text : List Char}

theorem next_of_isBlank (isBlank : isBlank c = true) :
    e.next c = if e = start then start else blank := if_pos isBlank

theorem next_of_visible (visible : isBlank c = false) : e.next c = .visible :=
  if_neg (by simp [visible])

theorem past_append (first second : List Char) :
    e.past (first ++ second) = (e.past first).past second := List.foldl_append

theorem past_of_allBlank (blank : allBlank text = true) :
    start.past text = start ∧ Edge.blank.past text = .blank := by
  induction text with
  | nil => exact ⟨rfl, rfl⟩
  | cons c text ih =>
    simp only [allBlank, List.all_cons, Bool.and_eq_true] at blank
    rw [past, past, List.foldl_cons, List.foldl_cons, next_of_isBlank blank.1,
      next_of_isBlank blank.1]
    exact ih blank.2

theorem past_ne_start (some : e ≠ start) : e.past text ≠ start := by
  induction text generalizing e with
  | nil => exact some
  | cons c text ih =>
    refine ih ?_
    rw [next, if_neg some]
    split <;> decide

theorem past_eq_start : start.past text = start ↔ allBlank text = true := by
  refine ⟨fun same => ?_, fun blank => (past_of_allBlank blank).1⟩
  induction text with
  | nil => rfl
  | cons c text ih =>
    rw [past, List.foldl_cons] at same
    by_cases here : isBlank c = true
    · rw [next_of_isBlank here] at same
      rw [allBlank, List.all_cons, here, Bool.true_and]
      exact ih same
    · rw [next_of_visible (by simpa using here)] at same
      exact absurd same (past_ne_start (by decide))

/-- Visible text makes what stood before it irrelevant. -/
theorem past_of_visible (visible : allBlank text = false) : e.past text = start.past text := by
  induction text generalizing e with
  | nil => cases visible
  | cons c text ih =>
    by_cases here : isBlank c = true
    · have later : allBlank text = false := by
        simpa [allBlank, here] using visible
      rw [past, past, List.foldl_cons, List.foldl_cons]
      exact (ih later).trans (ih later).symm
    · have here : isBlank c = false := by simpa using here
      rw [past, past, List.foldl_cons, List.foldl_cons, next_of_visible here,
        next_of_visible here]

end Edge

/-- A text with its blanks unified, as part of a text with that edge before it. A space is shown
in front of the visible character behind it. -/
def collapseFrom (e : Edge) : List Char → List Char
  | [] => []
  | c :: rest => if isBlank c then collapseFrom (e.next c) rest
    else e.space ++ c :: collapseFrom .visible rest

section

variable {e : Edge} {c : Char} {text : List Char}

theorem collapseFrom_blank (blank : isBlank c = true) (rest : List Char) :
    collapseFrom e (c :: rest) = collapseFrom (e.next c) rest := if_pos blank

theorem collapseFrom_visible (visible : isBlank c = false) (rest : List Char) :
    collapseFrom e (c :: rest) = e.space ++ c :: collapseFrom .visible rest :=
  if_neg (by simp [visible])

theorem collapseFrom_append (first second : List Char) :
    collapseFrom e (first ++ second) = collapseFrom e first ++ collapseFrom (e.past first) second := by
  induction first generalizing e with
  | nil => rfl
  | cons c first ih =>
    rw [List.cons_append, Edge.past, List.foldl_cons]
    by_cases here : isBlank c = true
    · rw [collapseFrom_blank here, collapseFrom_blank here]
      exact ih
    · have here : isBlank c = false := by simpa using here
      rw [collapseFrom_visible here, collapseFrom_visible here, Edge.next_of_visible here, ih,
        List.append_assoc]
      rfl

theorem collapseFrom_of_allBlank (blank : allBlank text = true) : collapseFrom e text = [] := by
  induction text generalizing e with
  | nil => rfl
  | cons c text ih =>
    simp only [allBlank, List.all_cons, Bool.and_eq_true] at blank
    rw [collapseFrom_blank blank.1]
    exact ih blank.2

/-- Behind a blank, visible text has a space in front. -/
theorem collapseFrom_behind_blank (visible : allBlank text = false) :
    ∃ shown, collapseFrom .blank text = ' ' :: shown := by
  induction text with
  | nil => cases visible
  | cons c text ih =>
    by_cases here : isBlank c = true
    · have later : allBlank text = false := by
        simpa [allBlank, here] using visible
      rw [collapseFrom_blank here, Edge.next_of_isBlank here]
      exact ih later
    · have here : isBlank c = false := by simpa using here
      exact ⟨_, collapseFrom_visible here text⟩

/-- Each word with a space in front. -/
def spaced (words : List (List Char)) : List Char := words.flatMap (' ' :: ·)

theorem join_eq_spaced (word : List Char) (words : List (List Char)) :
    join [' '] (word :: words) = word ++ spaced words := by
  induction words generalizing word with
  | nil => exact (List.append_nil word).symm
  | cons next words ih =>
    rw [join, ih, spaced, spaced, List.flatMap_cons, List.append_assoc]
    rfl

/-- The three ways in which a text continues what stands before it, by its words. -/
theorem collapseFrom_eq_words (text : List Char) :
    collapseFrom .start text = join [' '] (words text) ∧
      collapseFrom .blank text = spaced (words text) ∧
      ∃ first rest, fields isBlank text = first :: rest ∧
        collapseFrom .visible text = first ++ spaced (rest.filter (!·.isEmpty)) := by
  induction text with
  | nil => exact ⟨rfl, rfl, [], [], rfl, rfl⟩
  | cons c text ih =>
    obtain ⟨atStart, behindBlank, first, rest, split, behindVisible⟩ := ih
    by_cases here : isBlank c = true
    · have same : words (c :: text) = words text := by
        rw [words, fields, if_pos here]
        rfl
      rw [same]
      refine ⟨?_, ?_, [], fields isBlank text, ?_, ?_⟩
      · rw [collapseFrom_blank here, Edge.next_of_isBlank here]
        exact atStart
      · rw [collapseFrom_blank here, Edge.next_of_isBlank here]
        exact behindBlank
      · rw [fields, if_pos here]
      · rw [collapseFrom_blank here, Edge.next_of_isBlank here]
        exact behindBlank
    · have here : isBlank c = false := by simpa using here
      have split' : fields isBlank (c :: text) = (c :: first) :: rest := by
        rw [fields, if_neg (by simp [here]), split]
        rfl
      have same : words (c :: text) = (c :: first) :: rest.filter (!·.isEmpty) := by
        rw [words, split']
        rfl
      rw [same]
      refine ⟨?_, ?_, c :: first, rest, split', ?_⟩
      · rw [collapseFrom_visible here, behindVisible, join_eq_spaced]
        rfl
      · rw [collapseFrom_visible here, behindVisible]
        rfl
      · rw [collapseFrom_visible here, behindVisible]
        rfl

theorem collapse_eq (text : List Char) : collapse text = collapseFrom .start text :=
  (collapseFrom_eq_words text).1.symm

end

/-! ### Output aligned with expected output -/

/-- A part of expected output with what it stands for. -/
inductive Part where
  | char (c : Char)
  /-- An ellipsis that stands for a text. -/
  | gap (text : List Char)

namespace Part

def wanted : Part → List Char
  | char c => [c]
  | gap _ => ellipsisMarker

def given : Part → List Char
  | char c => [c]
  | gap text => text

def isGap : Part → Bool
  | char _ => false
  | gap _ => true

def isBlank : Part → Bool
  | char c => Text.isBlank c
  | gap _ => false

end Part

def wanted (parts : List Part) : List Char := parts.flatMap Part.wanted

def given (parts : List Part) : List Char := parts.flatMap Part.given

/-- No ellipsis starts at a character that stands for itself. -/
def Leftmost : List Part → Prop
  | [] => True
  | .char c :: parts => ¬ellipsisMarker <+: c :: wanted parts ∧ Leftmost parts
  | .gap _ :: parts => Leftmost parts

/-- The parts say how the output comes from the expected output. -/
structure Aligns (parts : List Part) (want got : List Char) : Prop where
  leftmost : Leftmost parts
  wanted_eq : wanted parts = want
  given_eq : given parts = got

theorem wanted_append (first second : List Part) :
    wanted (first ++ second) = wanted first ++ wanted second := List.flatMap_append

theorem given_append (first second : List Part) :
    given (first ++ second) = given first ++ given second := List.flatMap_append

/-- Ellipses match exactly what can be aligned. -/
theorem ellipsisMatches_iff_aligns (want got : List Char) :
    ellipsisMatches want got = true ↔ ∃ parts, Aligns parts want got := by
  constructor
  · intro accepted
    induction want using separator_induction ellipsisMarker_ne_nil generalizing got with
    | nil => exact ⟨[], trivial, rfl, (ellipsisMatches_nil.mp accepted).symm⟩
    | cut rest ih =>
      obtain ⟨text, later, rfl, inner⟩ := ellipsisMatches_marker_append.mp accepted
      obtain ⟨parts, leftmost, rfl, rfl⟩ := ih later inner
      exact ⟨.gap text :: parts, leftmost, rfl, rfl⟩
    | cons c rest other ih =>
      obtain ⟨later, rfl, inner⟩ := (ellipsisMatches_cons other).mp accepted
      obtain ⟨parts, leftmost, rfl, rfl⟩ := ih later inner
      exact ⟨.char c :: parts, ⟨other, leftmost⟩, rfl, rfl⟩
  · rintro ⟨parts, leftmost, rfl, rfl⟩
    induction parts with
    | nil => exact ellipsisMatches_nil.mpr rfl
    | cons part parts ih =>
      cases part with
      | char c => exact (ellipsisMatches_cons leftmost.1).mpr ⟨_, rfl, ih leftmost.2⟩
      | gap text => exact ellipsisMatches_marker_append.mpr ⟨text, _, rfl, ih leftmost⟩

/-! ### Alignments with unified blanks -/

variable {e : Edge} {c : Char} {text owed : List Char} {parts : List Part}

/-- The alignment becomes one of the collapsed texts, behind a part that both have in common. -/
def Collapses (e : Edge) (parts : List Part) : Prop :=
  ∃ shown, Aligns shown (collapseFrom e (wanted parts)) (collapseFrom e (given parts))

/-- So it does behind an ellipsis, which takes some more of the output. The expected output has
shown the text `owed` before the ellipsis, and the output has still to show it. -/
def Absorbs (owed : List Char) (e : Edge) (parts : List Part) : Prop :=
  ∃ taken later shown, Aligns shown (collapseFrom .visible (wanted parts)) later ∧
    collapseFrom e (given parts) = owed ++ (taken ++ later)

/-- What the output owes in front of an ellipsis behind that edge that stands for `text`. -/
def owedFor (e : Edge) (text : List Char) : List Char := if allBlank text then e.space else []

/-- Unified blanks do not make an ellipsis. -/
theorem marker_prefix_of_collapse (behind : ellipsisMarker <+: c :: collapseFrom .visible text) :
    ellipsisMarker <+: c :: text := by
  have step {d : Char} {more rest : List Char} (visible : isBlank d = false) (other : d ≠ ' ')
      (front : d :: more <+: collapseFrom .visible rest) :
      ∃ tail, rest = d :: tail ∧ more <+: collapseFrom .visible tail := by
    cases rest with
    | nil => exact absurd front (by simp [collapseFrom])
    | cons e rest =>
      by_cases here : isBlank e = true
      · rw [collapseFrom_blank here, Edge.next_of_isBlank here] at front
        cases later : allBlank rest with
        | true =>
          rw [collapseFrom_of_allBlank later] at front
          exact absurd front (by simp)
        | false =>
          obtain ⟨shown, same⟩ := collapseFrom_behind_blank later
          rw [if_neg (by decide), same, List.cons_prefix_cons] at front
          exact absurd front.1 other
      · rw [collapseFrom_visible (by simpa using here)] at front
        change d :: more <+: e :: collapseFrom .visible rest at front
        obtain ⟨rfl, later⟩ := List.cons_prefix_cons.mp front
        exact ⟨rest, rfl, later⟩
  obtain ⟨rfl, second⟩ := List.cons_prefix_cons.mp behind
  obtain ⟨tail, rfl, third⟩ := step rfl (by decide) second
  obtain ⟨tail, rfl, -⟩ := step rfl (by decide) third
  exact List.prefix_append ['.', '.', '.'] tail

theorem aligns_space {shown : List Part} {want got : List Char} (aligns : Aligns shown want got)
    (e : Edge) : ∃ shown, Aligns shown (e.space ++ want) (e.space ++ got) := by
  unfold Edge.space
  split
  · refine ⟨.char ' ' :: shown, ⟨fun front => ?_, aligns.leftmost⟩, ?_, ?_⟩
    · exact absurd (List.cons_prefix_cons.mp front).1 (by decide)
    · exact congrArg (' ' :: ·) aligns.wanted_eq
    · exact congrArg (' ' :: ·) aligns.given_eq
  · exact ⟨shown, aligns⟩

theorem aligns_char {shown : List Part} {rest got : List Char}
    (aligns : Aligns shown (collapseFrom .visible rest) got)
    (other : ¬ellipsisMarker <+: c :: rest) :
    Aligns (.char c :: shown) (c :: collapseFrom .visible rest) (c :: got) where
  leftmost := by
    refine ⟨fun front => other (marker_prefix_of_collapse ?_), aligns.leftmost⟩
    rwa [aligns.wanted_eq] at front
  wanted_eq := congrArg (c :: ·) aligns.wanted_eq
  given_eq := congrArg (c :: ·) aligns.given_eq

theorem aligns_gap {shown : List Part} {want got : List Char} (aligns : Aligns shown want got)
    (text : List Char) : Aligns (.gap text :: shown) (ellipsisMarker ++ want) (text ++ got) where
  leftmost := aligns.leftmost
  wanted_eq := congrArg (ellipsisMarker ++ ·) aligns.wanted_eq
  given_eq := congrArg (text ++ ·) aligns.given_eq

theorem collapseFrom_marker (want : List Char) : collapseFrom e (ellipsisMarker ++ want) =
    e.space ++ (ellipsisMarker ++ collapseFrom .visible want) := rfl

/-- What an ellipsis stands for begins with the space before it, or the space is still owed. -/
theorem exists_owedFor (e : Edge) (text : List Char) :
    ∃ stood, collapseFrom e text ++ owedFor e text = e.space ++ stood := by
  unfold owedFor
  split
  · next blank =>
    rw [collapseFrom_of_allBlank blank]
    exact ⟨[], (List.append_nil _).symm⟩
  · next visible =>
    rw [List.append_nil]
    unfold Edge.space
    split
    · next isBlank =>
      rw [isBlank]
      exact collapseFrom_behind_blank (by simpa using visible)
    · exact ⟨_, rfl⟩

namespace Collapses

theorem nil : Collapses e [] := ⟨[], trivial, rfl, rfl⟩

theorem blank (here : isBlank c = true) (later : Collapses (e.next c) parts) :
    Collapses e (.char c :: parts) := by
  obtain ⟨shown, aligns⟩ := later
  refine ⟨shown, ?_⟩
  change Aligns shown (collapseFrom e (c :: wanted parts)) (collapseFrom e (c :: given parts))
  rwa [collapseFrom_blank here, collapseFrom_blank here]

theorem visible (here : isBlank c = false) (other : ¬ellipsisMarker <+: c :: wanted parts)
    (later : Collapses .visible parts) : Collapses e (.char c :: parts) := by
  obtain ⟨shown, aligns⟩ := later
  change ∃ shown, Aligns shown (collapseFrom e (c :: wanted parts)) (collapseFrom e (c :: given parts))
  rw [collapseFrom_visible here, collapseFrom_visible here]
  exact aligns_space (aligns_char aligns other) e

theorem gap (later : Absorbs (owedFor e text) (e.past text) parts) :
    Collapses e (.gap text :: parts) := by
  obtain ⟨taken, rest, shown, aligns, same⟩ := later
  obtain ⟨stood, front⟩ := exists_owedFor e text
  change ∃ shown, Aligns shown (collapseFrom e (ellipsisMarker ++ wanted parts))
    (collapseFrom e (text ++ given parts))
  rw [collapseFrom_marker, collapseFrom_append, same, ← List.append_assoc (collapseFrom e text),
    front, List.append_assoc, ← List.append_assoc stood]
  exact aligns_space (aligns_gap aligns (stood ++ taken)) e

end Collapses

namespace Absorbs

theorem nil : Absorbs [] e [] := ⟨[], [], [], ⟨trivial, rfl, rfl⟩, rfl⟩

theorem blank (here : isBlank c = true) (some : e ≠ .start) (later : Collapses .blank parts) :
    Absorbs [] e (.char c :: parts) := by
  obtain ⟨shown, aligns⟩ := later
  refine ⟨[], collapseFrom .blank (given parts), shown, ?_, ?_⟩
  · change Aligns shown (collapseFrom .visible (c :: wanted parts)) _
    rwa [collapseFrom_blank here, Edge.next_of_isBlank here]
  · change collapseFrom e (c :: given parts) = _
    rw [collapseFrom_blank here, Edge.next_of_isBlank here, if_neg some]
    rfl

theorem visible (here : isBlank c = false) (other : ¬ellipsisMarker <+: c :: wanted parts)
    (due : owed = [] ∨ owed = e.space) (later : Collapses .visible parts) :
    Absorbs owed e (.char c :: parts) := by
  obtain ⟨shown, aligns⟩ := later
  have aligns : Aligns (.char c :: shown) (collapseFrom .visible (wanted (.char c :: parts)))
      (c :: collapseFrom .visible (given parts)) := by
    change Aligns _ (collapseFrom .visible (c :: wanted parts)) _
    rw [collapseFrom_visible here]
    exact aligns_char aligns other
  have same : collapseFrom e (given (.char c :: parts)) =
      e.space ++ c :: collapseFrom .visible (given parts) := collapseFrom_visible here _
  rcases due with rfl | rfl
  · exact ⟨e.space, _, _, aligns, same⟩
  · exact ⟨[], _, _, aligns, same⟩

theorem gap (later : Absorbs (owedFor e text) (e.past text) parts) :
    Absorbs e.space e (.gap text :: parts) := by
  obtain ⟨taken, rest, shown, aligns, same⟩ := later
  obtain ⟨stood, front⟩ := exists_owedFor e text
  refine ⟨[], _, _, aligns_gap aligns (stood ++ taken), ?_⟩
  change collapseFrom e (text ++ given parts) = _
  rw [collapseFrom_append, same, ← List.append_assoc, front]
  simp only [List.append_assoc, List.nil_append]

theorem gap_free (later : Absorbs [] (e.past text) parts) :
    Absorbs [] e (.gap text :: parts) := by
  obtain ⟨taken, rest, shown, aligns, same⟩ := later
  refine ⟨[], _, _, aligns_gap aligns (collapseFrom e text ++ taken), ?_⟩
  change collapseFrom e (text ++ given parts) = _
  rw [collapseFrom_append, same]
  simp only [List.append_assoc, List.nil_append]

/-- Blanks before any visible text are left out. -/
theorem of_allBlank (blank : allBlank (wanted parts) = true) : Absorbs [] .start parts := by
  have same : given parts = wanted parts := by
    induction parts with
    | nil => rfl
    | cons part parts ih =>
      cases part with
      | char c =>
        change allBlank (c :: wanted parts) = true at blank
        simp only [allBlank, List.all_cons, Bool.and_eq_true] at blank
        exact congrArg (c :: ·) (ih blank.2)
      | gap text =>
        change allBlank (ellipsisMarker ++ wanted parts) = true at blank
        simp [allBlank, ellipsisMarker, show isBlank '.' = false from rfl] at blank
  refine ⟨[], [], [], ⟨trivial, ?_, rfl⟩, ?_⟩
  · exact (collapseFrom_of_allBlank blank).symm
  · rw [same, collapseFrom_of_allBlank blank]
    rfl

end Absorbs

/-! ### Ellipses that are words -/

/-- Ellipses that stand between blanks or ends of the text. -/
structure Alone (front run back : List Part) : Prop where
  some : run ≠ []
  gaps : run.all Part.isGap = true
  before : front.getLast?.all Part.isBlank = true
  behind : back.head?.all Part.isBlank = true

/-- A word that is made of ellipses, and is not the only one, stands for more than blanks. -/
def ShowsWords (parts : List Part) : Prop :=
  ∀ front run back, parts = front ++ (run ++ back) → Alone front run back →
    allBlank (given run) = true → allBlank (wanted front ++ wanted back) = true

/-- The edge behind some parts. -/
def edgeBehind (front : List Part) : Edge := Edge.start.past (wanted front)

theorem edgeBehind_concat (front : List Part) (c : Char) :
    edgeBehind (front ++ [.char c]) = (edgeBehind front).next c := by
  rw [edgeBehind, wanted_append, Edge.past_append]
  rfl

theorem getLast?_all_isBlank {front : List Part} (noGap : front.getLast?.any Part.isGap = false)
    (hidden : edgeBehind front ≠ .visible) : front.getLast?.all Part.isBlank = true := by
  rcases List.eq_nil_or_concat front with rfl | ⟨front, last, rfl⟩
  · rfl
  · rw [List.concat_eq_append] at *
    rw [List.getLast?_concat] at *
    cases last with
    | gap => cases noGap
    | char c =>
      rw [edgeBehind_concat] at hidden
      cases here : isBlank c with
      | true => exact here
      | false => exact absurd (Edge.next_of_visible here) hidden

theorem edgeBehind_gaps (front : List Part) {run : List Part} (some : run ≠ [])
    (gaps : run.all Part.isGap = true) : edgeBehind (front ++ run) = .visible := by
  rcases List.eq_nil_or_concat run with rfl | ⟨run, last, rfl⟩
  · exact absurd rfl some
  · rw [List.concat_eq_append] at *
    rw [edgeBehind, ← List.append_assoc, wanted_append, Edge.past_append]
    cases last with
    | gap => rfl
    | char => simp [Part.isGap] at gaps

/-- What is owed stays so until visible text comes. -/
theorem owedFor_append (e : Edge) (first second : List Char) :
    owedFor e first = [] ∧ owedFor e (first ++ second) = [] ∨
      owedFor e first = (e.past first).space ∧
        owedFor e (first ++ second) = owedFor (e.past first) second := by
  unfold owedFor
  have split : allBlank (first ++ second) = (allBlank first && allBlank second) := List.all_append
  rw [split]
  cases blank : allBlank first with
  | false => exact .inl ⟨rfl, rfl⟩
  | true =>
    cases e with
    | start => exact .inl ⟨rfl, by simp [Edge.space]⟩
    | visible => exact .inl ⟨rfl, by simp [Edge.space]⟩
    | blank =>
      rw [(Edge.past_of_allBlank blank).2]
      exact .inr ⟨rfl, by simp⟩

/-- Behind ellipses, at a blank or at the end, nothing is owed; and the output has visible text
before, or there is nothing but blanks left. -/
theorem settled_of_showsWords {front run back : List Part}
    (shows : ShowsWords (front ++ (run ++ back))) (noGap : front.getLast?.any Part.isGap = false)
    (some : run ≠ []) (gaps : run.all Part.isGap = true)
    (behind : back.head?.all Part.isBlank = true) :
    owedFor (edgeBehind front) (given run) = [] ∧
      ((edgeBehind front).past (given run) = .start → allBlank (wanted back) = true) := by
  by_cases attached : edgeBehind front = .visible
  · rw [attached]
    refine ⟨?_, fun same => absurd same (Edge.past_ne_start (by decide))⟩
    unfold owedFor
    split <;> rfl
  · have alone : Alone front run back := ⟨some, gaps, getLast?_all_isBlank noGap attached, behind⟩
    cases blank : allBlank (given run) with
    | true =>
      have onlyWord := shows front run back rfl alone blank
      have split : allBlank (wanted front ++ wanted back) =
          (allBlank (wanted front) && allBlank (wanted back)) := List.all_append
      rw [split, Bool.and_eq_true] at onlyWord
      have first : edgeBehind front = .start := Edge.past_eq_start.mpr onlyWord.1
      rw [owedFor, if_pos blank, first]
      exact ⟨rfl, fun _ => onlyWord.2⟩
    | false =>
      refine ⟨if_neg (by simp [blank]), fun same => ?_⟩
      rw [Edge.past_of_visible blank, Edge.past_eq_start, blank] at same
      cases same

/-- Alignments in which words of ellipses stand for more than blanks outlive that blanks are
unified. The induction is on the parts that are left; behind ellipses, the run of them that ends
there is kept apart from the parts before it. -/
theorem collapses_of_showsWords (rest : List Part) (leftmost : Leftmost rest) :
    (∀ front, ShowsWords (front ++ rest) → front.getLast?.any Part.isGap = false →
      Collapses (edgeBehind front) rest) ∧
    ∀ front run, ShowsWords (front ++ (run ++ rest)) → front.getLast?.any Part.isGap = false →
      run ≠ [] → run.all Part.isGap = true →
      Absorbs (owedFor (edgeBehind front) (given run)) ((edgeBehind front).past (given run))
        rest := by
  induction rest with
  | nil =>
    refine ⟨fun front _ _ => .nil, fun front run shows noGap some gaps => ?_⟩
    rw [(settled_of_showsWords shows noGap some gaps rfl).1]
    exact .nil
  | cons part rest ih =>
    cases part with
    | gap text =>
      obtain ⟨-, behindGaps⟩ := ih leftmost
      constructor
      · intro front shows noGap
        have later := behindGaps front [.gap text] shows noGap (by simp) rfl
        rw [show given [.gap text] = text from List.append_nil text] at later
        exact .gap later
      · intro front run shows noGap some gaps
        have later := behindGaps front (run ++ [.gap text]) (by simpa using shows) noGap (by simp)
          (by simp [gaps, Part.isGap])
        rw [given_append, show given [.gap text] = text from List.append_nil text,
          Edge.past_append] at later
        rcases owedFor_append (edgeBehind front) (given run) text with ⟨none, still⟩ | ⟨due, same⟩
        · rw [still] at later
          rw [none]
          exact .gap_free later
        · rw [same] at later
          rw [due]
          exact .gap later
    | char c =>
      obtain ⟨other, leftmost⟩ := leftmost
      obtain ⟨inText, -⟩ := ih leftmost
      have noGap (front : List Part) : (front ++ [Part.char c]).getLast?.any Part.isGap = false := by
        rw [List.getLast?_concat]
        rfl
      constructor
      · intro front shows _
        have later := inText (front ++ [.char c]) (by simpa using shows) (noGap front)
        rw [edgeBehind_concat] at later
        cases here : isBlank c with
        | true => exact .blank here later
        | false =>
          rw [Edge.next_of_visible here] at later
          exact .visible here other later
      · intro front run shows noGap' some gaps
        have later := inText (front ++ run ++ [.char c]) (by simpa using shows) (noGap _)
        rw [edgeBehind_concat, edgeBehind_gaps front some gaps] at later
        cases here : isBlank c with
        | true =>
          rw [Edge.next_of_isBlank here] at later
          obtain ⟨none, onlyBlanks⟩ := settled_of_showsWords shows noGap' some gaps here
          rw [none]
          by_cases nothing : (edgeBehind front).past (given run) = .start
          · rw [nothing]
            exact .of_allBlank (onlyBlanks nothing)
          · exact .blank here nothing later
        | false =>
          rw [Edge.next_of_visible here] at later
          refine .visible here other ?_ later
          exact (owedFor_append (edgeBehind front) (given run) []).imp (·.1) (·.1)

/-- Output that ellipses accept is accepted with unified blanks too, if it has an alignment in
which words of ellipses stand for more than blanks. -/
theorem ellipsisMatches_collapse {want got : List Char} (aligns : Aligns parts want got)
    (shows : ShowsWords parts) : ellipsisMatches (collapse want) (collapse got) = true := by
  obtain ⟨leftmost, rfl, rfl⟩ := aligns
  obtain ⟨shown, aligned⟩ := (collapses_of_showsWords parts leftmost).1 [] shows rfl
  rw [collapse_eq, collapse_eq]
  exact (ellipsisMatches_iff_aligns _ _).mpr ⟨shown, aligned⟩

/-! ### Options -/

section

variable {want got want' got' want'' got'' : List Char} {flags : Flags}

/-- Text matches as it is, with its blank lines made equal, with its blanks unified if the option is
on, or by ellipses if that option is. -/
theorem textMatches_iff (unmarked : unmarkBlankLines flags want got = (want', got'))
    (unified : unifyBlanks flags want' got' = (want'', got'')) :
    textMatches want got flags = true ↔ want = got ∨ want' = got' ∨ want'' = got'' ∨
      flags.has .ellipsis = true ∧ ellipsisMatches want'' got'' = true := by
  unfold textMatches
  rw [unmarked]
  dsimp only
  rw [unified]
  simp only [beq_iff_eq, Bool.if_true_left, Bool.or_eq_true, decide_eq_true_eq, Bool.and_eq_true]

theorem unmarkBlankLines_insert {flag : Flag} (other : flag ≠ .dontAcceptBlankline) :
    unmarkBlankLines (flags.insert flag) want got = unmarkBlankLines flags want got := by
  unfold unmarkBlankLines
  rw [Flags.has_insert, beq_false_of_ne other.symm, Bool.false_or]

theorem unifyBlanks_of_has (normalize : flags.has .normalizeWhitespace = true) :
    unifyBlanks flags want got = (collapse want, collapse got) := if_pos normalize

theorem unifyBlanks_of_not_has (normalize : flags.has .normalizeWhitespace = false) :
    unifyBlanks flags want got = (want, got) := if_neg (by simp [normalize])

/-- Accepted output stays so when ellipses are switched on. It stays so when blanks are unified,
but where it was accepted by ellipses alone and, however these are filled, some word that is made
of ellipses and is not the only one stands for blanks. -/
theorem textMatches_relaxed (accepted : textMatches want got flags = true) :
    textMatches want got (flags.insert .ellipsis) = true ∧
      (textMatches want got (flags.insert .normalizeWhitespace) = true ∨
        flags.has .ellipsis = true ∧
          ∃ want' got', unmarkBlankLines flags want got = (want', got') ∧ want' ≠ got' ∧
            (∃ parts, Aligns parts want' got') ∧
            ∀ parts, Aligns parts want' got' → ¬ShowsWords parts) := by
  obtain ⟨⟨want', got'⟩, unmarked⟩ : ∃ texts, unmarkBlankLines flags want got = texts := ⟨_, rfl⟩
  obtain ⟨⟨want'', got''⟩, unified⟩ : ∃ texts, unifyBlanks flags want' got' = texts := ⟨_, rfl⟩
  have before := (textMatches_iff unmarked unified).mp accepted
  have unmarked' (flag : Flag) (other : flag ≠ .dontAcceptBlankline) :
      unmarkBlankLines (flags.insert flag) want got = (want', got') :=
    (unmarkBlankLines_insert other).trans unmarked
  constructor
  · rw [textMatches_iff (unmarked' .ellipsis (by decide)) unified]
    exact before.imp_right (.imp_right (.imp_right fun ⟨_, found⟩ => ⟨rfl, found⟩))
  · rw [textMatches_iff (unmarked' .normalizeWhitespace (by decide)) (unifyBlanks_of_has rfl)]
    cases normalize : flags.has .normalizeWhitespace with
    | true =>
      rw [unifyBlanks_of_has normalize] at unified
      cases unified
      exact .inl before
    | false =>
      rw [unifyBlanks_of_not_has normalize] at unified
      cases unified
      rcases before with same | same | same | ⟨ellipsis, found⟩
      · exact .inl (.inl same)
      · exact .inl (.inr (.inl same))
      · exact .inl (.inr (.inl same))
      by_cases equal : want' = got'
      · exact .inl (.inr (.inl equal))
      by_cases stands : ∃ parts, Aligns parts want' got' ∧ ShowsWords parts
      · obtain ⟨parts, aligns, shows⟩ := stands
        exact .inl (.inr (.inr (.inr ⟨ellipsis, ellipsisMatches_collapse aligns shows⟩)))
      · exact .inr ⟨ellipsis, want', got', unmarked, equal,
          (ellipsisMatches_iff_aligns _ _).mp found,
          fun parts aligns shows => stands ⟨parts, aligns, shows⟩⟩

/-- Behind `a ` and before ` b` there is no room for visible text, so that the exception applies. -/
theorem textMatches_relaxed_no_room :
    textMatches "a ... b".toList "a  b".toList (.ofList [.ellipsis]) = true ∧
      textMatches "a ... b".toList "a  b".toList
        ((Flags.ofList [.ellipsis]).insert .ellipsis) = true ∧
      ∀ parts, Aligns parts "a ... b".toList "a  b".toList → ¬ShowsWords parts := by
  have accepted : textMatches "a ... b".toList "a  b".toList (.ofList [.ellipsis]) = true := by
    decide
  obtain ⟨still, exception⟩ := textMatches_relaxed accepted
  refine ⟨accepted, still, ?_⟩
  obtain ⟨-, want, got, unmarked, -, -, blanks⟩ := exception.resolve_left (by decide)
  have same : unmarkBlankLines (.ofList [.ellipsis]) "a ... b".toList "a  b".toList =
      ("a ... b".toList, "a  b".toList) := by decide
  cases same.symm.trans unmarked
  exact blanks

/-- An ellipsis between blanks that stands for nothing. -/
theorem textMatches_lone_ellipsis :
    textMatches "a ... b".toList "a  b".toList (.ofList [.ellipsis]) = true ∧
      textMatches "a ... b".toList "a  b".toList
        ((Flags.ofList [.ellipsis]).insert .normalizeWhitespace) = false := by
  decide

end

end DocExamples.Output
