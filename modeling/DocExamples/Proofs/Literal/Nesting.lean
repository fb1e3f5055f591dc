import DocExamples.Literal.Token
import DocExamples.Proofs.Script.Lexing
import DocExamples.Text.Blank
/-!
How deep brackets nest in a text, its string literals left out. A text that has tokens has their
brackets, whatever blanks surround it.
-/
namespace DocExamples.Literal

open Text

inductive Bracket where
  | opening
  | closing
  deriving DecidableEq, Repr

def bracket? : Char → Option Bracket
  | '[' | '(' | '{' => some .opening
  | ']' | ')' | '}' => some .closing
  | _ => none

def Token.bracket? : Token → Option Bracket
  | .leftBracket | .leftParen | .leftBrace => some .opening
  | .rightBracket | .rightParen | .rightBrace => some .closing
  | _ => none

/-- The brackets of a text outside of string literals. A quote that starts none is skipped. -/
def bracketsIn (text : List Char) : List Bracket :=
  match text with
  | [] => []
  | c :: rest =>
    if c = '"' ∨ c = '\'' then
      match _ : quotedSpan c rest with
      | (_, .closed after) => bracketsIn after
      | (_, .unclosed) => bracketsIn rest
    else (bracket? c).toList ++ bracketsIn rest
termination_by text.length
decreasing_by
  · exact Nat.lt_succ_of_lt (quotedSpan_shorter ‹_›)
  · exact Nat.lt_succ_self _
  · exact Nat.lt_succ_self _

/-- How many brackets are open at most at once, if so many are open before. Where none is open, a
closing one closes nothing. -/
def depthFrom (opened : Nat) : List Bracket → Nat
  | [] => opened
  | .opening :: rest => depthFrom (opened + 1) rest
  | .closing :: rest => max opened (depthFrom (opened - 1) rest)

/-- How deep the brackets of a text nest outside of string literals. -/
def bracketNesting (text : String) : Nat := depthFrom 0 (bracketsIn text.toList)

/-- Brackets that close as they open, and nest at most so deep. -/
inductive Nested : Nat → List Bracket → Prop where
  | nil {depth : Nat} : Nested depth []
  | wrap {depth : Nat} {inside later : List Bracket} (inner : Nested depth inside)
    (rest : Nested (depth + 1) later) :
    Nested (depth + 1) (.opening :: (inside ++ .closing :: later))

namespace Nested

variable {depth : Nat} {brackets : List Bracket}

theorem append {more : List Bracket} (first : Nested depth brackets) (second : Nested depth more) :
    Nested depth (brackets ++ more) := by
  induction first with
  | nil => exact second
  | wrap inner _ _ ih =>
    rw [List.cons_append, List.append_assoc, List.cons_append]
    exact .wrap inner (ih second)

theorem depthFrom_le (nested : Nested depth brackets) (opened : Nat) (more : List Bracket) :
    depthFrom opened (brackets ++ more) ≤ max (opened + depth) (depthFrom opened more) := by
  induction nested generalizing opened more with
  | nil => exact Nat.le_max_right _ _
  | @wrap depth inside later _ _ innerIh restIh =>
    rw [List.cons_append, List.append_assoc, List.cons_append, depthFrom]
    have inner := innerIh (opened + 1) (.closing :: (later ++ more))
    have rest := restIh opened more
    rw [depthFrom, Nat.add_sub_cancel] at inner
    omega

theorem depth_le (nested : Nested depth brackets) : depthFrom 0 brackets ≤ depth := by
  have bound := nested.depthFrom_le 0 []
  rw [List.append_nil, depthFrom] at bound
  omega

end Nested

/-! ### Characters that are no brackets -/

/-- The characters that are a bracket or start a string. -/
def marks : List Char := ['"', '\'', '[', ']', '(', ')', '{', '}']

theorem bracket?_eq_none {c : Char} (plain : c ∉ marks) : bracket? c = none := by
  unfold bracket?
  split
  all_goals first | rfl | exact absurd (by decide) plain

theorem bracketsIn_cons {c : Char} (noQuote : c ≠ '"' ∧ c ≠ '\'') (rest : List Char) :
    bracketsIn (c :: rest) = (bracket? c).toList ++ bracketsIn rest := by
  rw [bracketsIn, if_neg (by simpa using noQuote)]

theorem bracketsIn_append_plain {chars : List Char} (plain : ∀ c ∈ chars, c ∉ marks)
    (rest : List Char) : bracketsIn (chars ++ rest) = bracketsIn rest := by
  induction chars with
  | nil => rfl
  | cons c chars ih =>
    obtain ⟨first, others⟩ := List.forall_mem_cons.mp plain
    have noQuote : c ≠ '"' ∧ c ≠ '\'' := by
      constructor
      · rintro rfl
        exact first (by decide)
      · rintro rfl
        exact first (by decide)
    rw [List.cons_append, bracketsIn_cons noQuote, bracket?_eq_none first, ih others]
    rfl

theorem bracketsIn_quoted {quote : Char} {chars text after : List Char}
    (isQuote : quote = '"' ∨ quote = '\'') (span : quotedSpan quote text = (chars, .closed after)) :
    bracketsIn (quote :: text) = bracketsIn after := by
  rw [bracketsIn, if_pos isQuote]
  split
  · next span' =>
    rw [span] at span'
    cases span'
    rfl
  · next span' =>
    rw [span] at span'
    cases span'

/-- None of the characters with a property is a mark. -/
theorem plain_of {p : Char → Bool} (none : marks.any p = false) {chars : List Char}
    (all : ∀ c ∈ chars, p c = true) : ∀ c ∈ chars, c ∉ marks := by
  intro c inside mark
  have refused := List.any_eq_false.mp none c mark
  exact refused (all c inside)

/-! ### Tokens -/

theorem prefix_append_of_drop {first second text : List Char} (front : first <+: text)
    (next : second <+: text.drop first.length) : first ++ second <+: text := by
  obtain ⟨rest, rfl⟩ := front
  rw [List.drop_left] at next
  exact (List.prefix_append_right_inj first).mpr next

/-- A part in front of a text that has none of the marks. -/
structure PlainFront (chars text : List Char) : Prop where
  front : chars <+: text
  plain : ∀ c ∈ chars, c ∉ marks

theorem PlainFront.nil (text : List Char) : PlainFront [] text := ⟨List.nil_prefix, by simp⟩

theorem PlainFront.append {first second text : List Char} (front : PlainFront first text)
    (next : PlainFront second (text.drop first.length)) : PlainFront (first ++ second) text where
  front := prefix_append_of_drop front.front next.front
  plain := List.forall_mem_append.mpr ⟨front.plain, next.plain⟩

theorem PlainFront.cons {c : Char} {chars text : List Char} (plain : c ∉ marks)
    (front : PlainFront chars text) : PlainFront (c :: chars) (c :: text) where
  front := List.cons_prefix_cons.mpr ⟨rfl, front.front⟩
  plain := List.forall_mem_cons.mpr ⟨plain, front.plain⟩

theorem plainFront_digits (text : List Char) : PlainFront (text.takeWhile (·.isDigit)) text where
  front := List.takeWhile_prefix _
  plain := plain_of (p := Char.isDigit) (by decide) fun c inside => List.mem_takeWhile_imp inside

theorem plainFront_fractionSpan (leading : Bool) (text : List Char) :
    PlainFront (fractionSpan leading text) text := by
  unfold fractionSpan
  split
  · next digits =>
    dsimp only
    split
    · exact (plainFront_digits digits).cons (by decide)
    · exact .nil _
  · exact .nil _

theorem plainFront_exponentSpan (text : List Char) : PlainFront (exponentSpan text) text := by
  unfold exponentSpan
  split
  · exact .nil _
  · next e rest =>
    have shown (sign : List Char) (front : PlainFront sign rest) (plain : e ∉ marks) :
        PlainFront (let digits := (rest.drop sign.length).takeWhile (·.isDigit)
          if digits.isEmpty then [] else e :: sign ++ digits) (e :: rest) := by
      dsimp only
      split
      · exact .nil _
      · exact (front.append (plainFront_digits _)).cons plain
    split
    · next isE =>
      have plain : e ∉ marks := by rcases isE with rfl | rfl <;> decide
      split
      · exact shown ['+'] ((PlainFront.nil _).cons (by decide)) plain
      · exact shown ['-'] ((PlainFront.nil _).cons (by decide)) plain
      · exact shown [] (.nil _) plain
    · exact .nil _

theorem plainFront_numeral {text : List Char} {n : Numeral} (found : numeral? text = some n) :
    PlainFront n.chars text := by
  unfold numeral? at found
  dsimp only at found
  split at found
  · cases found
  · cases found
    exact ((plainFront_digits text).append (plainFront_fractionSpan _ _)).append
      (plainFront_exponentSpan _)

theorem plainFront_nameSpan (start : Bool) (text : List Char) :
    PlainFront (Token.nameSpan start text) text := by
  have letter {p : Char → Bool} (none : marks.any p = false) {c : Char} (holds : p c = true) :
      c ∉ marks := by
    have all : ∀ d ∈ [c], p d = true := by simpa using holds
    exact plain_of none all c List.mem_cons_self
  induction text generalizing start with
  | nil => exact .nil []
  | cons c rest ih =>
    unfold Token.nameSpan
    split
    · split
      · next starts =>
        exact (ih false).cons (letter (p := isNameStart) (by decide) starts)
      · exact .nil _
    · split
      · next inside => exact (ih false).cons (letter (p := isNameChar) (by decide) inside)
      · split
        · next point => exact (ih true).cons (by rw [point.1]; decide)
        · exact .nil _

theorem bracket?_symbol {c : Char} {token : Token} (found : Token.symbol? c = some token) :
    bracket? c = token.bracket? := by
  unfold Token.symbol? at found
  split at found
  all_goals cases found
  all_goals rfl

/-- The first token of a text has the brackets of the characters that it is made of. -/
theorem bracketsIn_of_first? {text rest : List Char} {token : Token}
    (found : Token.first? text = some (token, rest)) (more : List Char) :
    bracketsIn (text ++ more) = token.bracket?.toList ++ bracketsIn (rest ++ more) := by
  have plain {chars : List Char} (front : PlainFront chars text) :
      bracketsIn (text ++ more) = bracketsIn (text.drop chars.length ++ more) := by
    obtain ⟨after, rfl⟩ := front.front
    rw [List.drop_left, List.append_assoc, bracketsIn_append_plain front.plain]
  unfold Token.first? at found
  split at found
  · next n isNumeral =>
    cases found
    rw [plain (plainFront_numeral isNumeral)]
    split <;> rfl
  · split at found
    · cases found
      have points : ∀ c ∈ ['.', '.', '.'], c ∉ marks := by simp [marks]
      exact bracketsIn_append_plain points _
    · cases found
      have dashes : ∀ c ∈ ['-', '-'], c ∉ marks := by simp [marks]
      exact bracketsIn_append_plain dashes _
    · next c after _ _ _ =>
      split at found
      · next isQuote =>
        split at found
        · next chars left span =>
          cases found
          exact bracketsIn_quoted isQuote (quotedSpan_append span)
        · cases found
      · next noQuote =>
        split at found
        · cases found
          rw [plain (plainFront_nameSpan true (c :: after))]
          rfl
        · obtain ⟨symbol, isSymbol, same⟩ := Option.map_eq_some_iff.mp found
          cases same
          rw [List.cons_append, bracketsIn_cons (not_or.mp noQuote)]
          rw [bracket?_symbol isSymbol]
    · cases found

/-- A text that has tokens has their brackets. -/
theorem bracketsIn_of_scanWith {fuel : Nat} {text : List Char} {tokens : List Token}
    (scanned : Token.scanWith fuel text = some tokens) (more : List Char) :
    bracketsIn (text ++ more) = tokens.filterMap Token.bracket? ++ bracketsIn more := by
  induction fuel generalizing text tokens with
  | zero =>
    cases text with
    | nil =>
      cases scanned
      rfl
    | cons => cases scanned
  | succ fuel ih =>
    cases text with
    | nil =>
      cases scanned
      rfl
    | cons c rest =>
      rw [Token.scanWith] at scanned
      split at scanned
      · next blank =>
        have plain : ∀ d ∈ [c], d ∉ marks :=
          plain_of (p := Token.isSkipped) (by decide) (by simpa using blank)
        exact (bracketsIn_append_plain plain (rest ++ more)).trans (ih scanned)
      · obtain ⟨⟨token, after⟩, first, scanned⟩ := Option.bind_eq_some_iff.mp scanned
        obtain ⟨others, later, same⟩ := Option.bind_eq_some_iff.mp scanned
        cases same
        rw [bracketsIn_of_first? first, ih later, List.filterMap_cons]
        cases token.bracket? <;> rfl

/-! ### Blanks around a text -/

theorem exists_trim (text : List Char) : ∃ front back, text = front ++ (trim text ++ back) ∧
    (∀ c ∈ front, isBlank c = true) ∧ ∀ c ∈ back, isBlank c = true := by
  refine ⟨text.takeWhile isBlank, ((trimStart text).reverse.takeWhile isBlank).reverse, ?_, ?_, ?_⟩
  · rw [trim, trimEnd, ← List.reverse_append, List.takeWhile_append_dropWhile, List.reverse_reverse,
      trimStart, List.takeWhile_append_dropWhile]
  · exact fun c inside => List.mem_takeWhile_imp inside
  · exact fun c inside => List.mem_takeWhile_imp (List.mem_reverse.mp inside)

/-- The brackets of a text are those of its tokens. -/
theorem bracketsIn_of_scan {text : List Char} {tokens : List Token}
    (scanned : Token.scan (trim text) = some tokens) :
    bracketsIn text = tokens.filterMap Token.bracket? := by
  obtain ⟨front, back, whole, blankFront, blankBack⟩ := exists_trim text
  have plain {blanks : List Char} (all : ∀ c ∈ blanks, isBlank c = true) :
      ∀ c ∈ blanks, c ∉ marks := plain_of (by decide) all
  have ending : bracketsIn back = [] := by
    have nothing := bracketsIn_append_plain (plain blankBack) []
    rwa [List.append_nil, bracketsIn] at nothing
  rw [whole, bracketsIn_append_plain (plain blankFront), bracketsIn_of_scanWith scanned, ending,
    List.append_nil]

end DocExamples.Literal
