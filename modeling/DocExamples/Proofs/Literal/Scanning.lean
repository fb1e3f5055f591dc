import DocExamples.Literal.Token
import DocExamples.Proofs.Text.Numerals
/-!
The tokens of a text that is put together from parts: a part whose tokens do not depend on what
follows gives its tokens, then those of the rest.
-/
namespace DocExamples.Literal.Token

open Text

/-- The text consists of these tokens, with blanks between them. -/
inductive Scanned : List Char → List Token → Prop where
  | nil : Scanned [] []
  | skip {c : Char} {rest : List Char} {tokens : List Token} (blank : isSkipped c = true)
    (later : Scanned rest tokens) : Scanned (c :: rest) tokens
  | token {c : Char} {chars rest : List Char} {token : Token} {tokens : List Token}
    (visible : isSkipped c = false) (found : first? (c :: (chars ++ rest)) = some (token, rest))
    (later : Scanned rest tokens) : Scanned (c :: (chars ++ rest)) (token :: tokens)

theorem Scanned.scanWith {text : List Char} {tokens : List Token} (scanned : Scanned text tokens)
    {fuel : Nat} (enough : text.length ≤ fuel) : scanWith fuel text = some tokens := by
  induction scanned generalizing fuel with
  | nil => cases fuel <;> rfl
  | skip blank later ih =>
    cases fuel with
    | zero => cases enough
    | succ fuel =>
      rw [Token.scanWith, if_pos blank]
      exact ih (Nat.le_of_succ_le_succ enough)
  | @token c chars rest token tokens visible found later ih =>
    cases fuel with
    | zero => cases enough
    | succ fuel =>
      have shorter : rest.length ≤ fuel := by
        simp only [List.length_cons, List.length_append] at enough
        omega
      rw [Token.scanWith, visible, if_neg Bool.false_ne_true, found]
      simp [ih shorter]

theorem Scanned.scan {text : List Char} {tokens : List Token} (scanned : Scanned text tokens) :
    scan text = some tokens := scanned.scanWith (Nat.le_refl _)

/-- In front of a delimiter the part gives these tokens. -/
def Scans (part : List Char) (tokens : List Token) : Prop :=
  ∀ rest more, Delimited rest → Scanned rest more → Scanned (part ++ rest) (tokens ++ more)

theorem Scans.scanned {part : List Char} {tokens : List Token} (scans : Scans part tokens) :
    Scanned part tokens := by
  simpa using scans [] [] delimited_nil .nil

variable {rest : List Char} {more : List Token}

/-! ### Blanks -/

theorem Scanned.blanks {blanks : List Char} (skipped : ∀ c ∈ blanks, isSkipped c = true)
    (later : Scanned rest more) : Scanned (blanks ++ rest) more := by
  induction blanks with
  | nil => exact later
  | cons c blanks ih =>
    obtain ⟨first, others⟩ := List.forall_mem_cons.mp skipped
    exact .skip first (ih others)

/-- Blanks and line feeds between two parts of a text. -/
structure IsBlanks (blanks : List Char) : Prop where
  some : blanks ≠ []
  all : ∀ c ∈ blanks, c = ' ' ∨ c = '\n'

namespace IsBlanks

variable {blanks : List Char}

theorem delimited (isBlanks : IsBlanks blanks) (rest : List Char) : Delimited (blanks ++ rest) := by
  obtain ⟨c, others, rfl⟩ := List.exists_cons_of_ne_nil isBlanks.some
  refine delimited_cons ?_
  rcases isBlanks.all c List.mem_cons_self with rfl | rfl <;> decide

theorem scanned (isBlanks : IsBlanks blanks) (later : Scanned rest more) :
    Scanned (blanks ++ rest) more := by
  refine later.blanks fun c member => ?_
  rcases isBlanks.all c member with rfl | rfl <;> rfl

theorem single : IsBlanks [' '] := ⟨List.cons_ne_nil _ _, by simp⟩

end IsBlanks

/-! ### Punctuation -/

/-- What else may start with the character: a numeral, a name, a string, or a token of two or three
characters. -/
def startsOther (c : Char) : Bool :=
  c.isDigit || c == '.' || c == '-' || c == '"' || c == '\'' || isNameStart c || isSkipped c

theorem first?_symbol {c : Char} {token : Token} (only : startsOther c = false)
    (symbol : symbol? c = some token) : first? (c :: rest) = some (token, rest) := by
  simp only [startsOther, Bool.or_eq_false_iff, beq_eq_false_iff_ne] at only
  obtain ⟨⟨⟨⟨⟨⟨noDigit, noPoint⟩, noMinus⟩, noDouble⟩, noSingle⟩, noName⟩, -⟩ := only
  unfold first?
  rw [numeral?_eq_none noDigit noPoint]
  simp [noPoint, noMinus, noDouble, noSingle, noName, symbol]

theorem Scanned.symbol {c : Char} {token : Token} (only : startsOther c = false)
    (symbol : symbol? c = some token) (later : Scanned rest more) :
    Scanned (c :: rest) (token :: more) := by
  have visible : isSkipped c = false := by
    simp only [startsOther, Bool.or_eq_false_iff] at only
    exact only.2
  exact @Scanned.token c [] _ _ _ visible (first?_symbol only symbol) later

theorem Scans.before {c : Char} {token : Token} {text : List Char} {tokens : List Token}
    (only : startsOther c = false) (symbol : symbol? c = some token) (scans : Scans text tokens) :
    Scans (c :: text) (token :: tokens) :=
  fun rest more delimited later => .symbol only symbol (scans rest more delimited later)

theorem Scans.after {c : Char} {token : Token} {text : List Char} {tokens : List Token}
    (delimits : c ∈ delimiters) (only : startsOther c = false) (symbol : symbol? c = some token)
    (scans : Scans text tokens) : Scans (text ++ [c]) (tokens ++ [token]) := by
  intro rest more _ later
  rw [List.append_assoc, List.append_assoc]
  exact scans _ _ (delimited_cons delimits) (.symbol only symbol later)

theorem first?_minus {c : Char} (single : c ≠ '-') :
    first? ('-' :: c :: rest) = some (.minus, c :: rest) := by
  unfold first?
  rw [numeral?_eq_none (by decide) (by decide)]
  dsimp only
  split
  · next same => cases same
  · next same =>
    cases same
    exact absurd rfl single
  · next same =>
    cases same
    rfl
  · next same => cases same

theorem Scanned.minus {c : Char} (single : c ≠ '-') (later : Scanned (c :: rest) more) :
    Scanned ('-' :: c :: rest) (.minus :: more) :=
  @Scanned.token '-' [] _ _ _ rfl (first?_minus single) later

/-! ### Numbers -/

theorem first?_of_numeral {text : List Char} {numeral : Numeral} (found : numeral? text = some numeral) :
    first? text = some (if numeral.whole then .int numeral.chars else .float numeral.chars,
      text.drop numeral.chars.length) := by
  unfold first?
  rw [found]

theorem isSkipped_of_isDigit {c : Char} (digit : c.isDigit = true) : isSkipped c = false := by
  have blanks : [' ', '\t', '\r', '\n'].any (·.isDigit) = false := by decide
  have other : c ∉ [' ', '\t', '\r', '\n'] := fun member =>
    List.any_eq_false.mp blanks c member digit
  simpa [isSkipped, and_assoc] using other

theorem scans_digits {digits : List Char} (all : AllDigits digits) (some : digits ≠ []) :
    Scans digits [.int digits] := by
  intro rest more delimited later
  obtain ⟨c, chars, rfl⟩ := List.exists_cons_of_ne_nil some
  have found := first?_of_numeral (numeral?_digits all some delimited)
  rw [if_pos rfl, List.drop_left] at found
  exact .token (isSkipped_of_isDigit (all c List.mem_cons_self)) found later

theorem scans_floatText {text : List Char} (form : IsFloatText text) :
    Scans text [.float text] := by
  intro rest more delimited later
  obtain ⟨c, chars, digit, rfl⟩ := form.starts
  have found := first?_of_numeral (form.numeral?_append delimited)
  rw [if_neg Bool.false_ne_true, List.drop_left] at found
  exact .token (isSkipped_of_isDigit digit) found later

/-- A minus sign in front of what starts with a digit or a letter. -/
theorem Scans.minus {c : Char} {chars : List Char} {tokens : List Token} (single : c ≠ '-')
    (scans : Scans (c :: chars) tokens) : Scans ('-' :: c :: chars) (.minus :: tokens) :=
  fun rest more delimited later => Scanned.minus single (scans rest more delimited later)

/-! ### Names -/

/-- A character that ends a name. -/
def endsName (c : Char) : Bool := !isNameChar c && c != '.'

theorem nameSpan_append {name : List Char} (all : ∀ c ∈ name, isNameChar c = true)
    (ends : ∀ c, rest.head? = some c → endsName c = true) :
    nameSpan false (name ++ rest) = name := by
  induction name with
  | nil =>
    cases rest with
    | nil => rfl
    | cons c tail =>
      have ends := ends c rfl
      simp only [endsName, Bool.and_eq_true, Bool.not_eq_true', bne_iff_ne] at ends
      simp [nameSpan, ends]
  | cons c name ih =>
    obtain ⟨first, others⟩ := List.forall_mem_cons.mp all
    simp [nameSpan, first, ih others]

/-- A letter starts neither a numeral nor a string nor a sign, and is no blank. -/
theorem of_isAlpha {c : Char} (letter : c.isAlpha = true) :
    c.isDigit = false ∧ c ∉ ['.', '-', '"', '\'', ' ', '\t', '\r', '\n'] := by
  constructor
  · simp only [Char.isAlpha, Char.isUpper, Char.isLower, Bool.or_eq_true, Bool.and_eq_true,
      decide_eq_true_eq, UInt32.le_iff_toNat_le] at letter
    simp only [Char.isDigit, Bool.and_eq_false_iff, decide_eq_false_iff_not, ge_iff_le,
      UInt32.le_iff_toNat_le]
    have codes : '9'.val.toNat < 'A'.val.toNat ∧ '9'.val.toNat < 'a'.val.toNat := by decide
    omega
  · have others : ['.', '-', '"', '\'', ' ', '\t', '\r', '\n'].any (·.isAlpha) = false := by
      decide
    exact fun member => List.any_eq_false.mp others c member letter

theorem Scanned.name {c : Char} {name : List Char} (letter : c.isAlpha = true)
    (all : name.all isNameChar = true) (ends : ∀ d, rest.head? = some d → endsName d = true)
    (later : Scanned rest more) : Scanned (c :: (name ++ rest)) (.name (c :: name) :: more) := by
  have starts : isNameStart c = true := by simp [isNameStart, letter]
  obtain ⟨noDigit, other⟩ := of_isAlpha letter
  simp only [List.mem_cons, List.not_mem_nil, or_false, not_or] at other
  have span : nameSpan true (c :: (name ++ rest)) = c :: name := by
    simp [nameSpan, starts, nameSpan_append (List.all_eq_true.mp all) ends]
  refine .token (by simp [isSkipped, other]) ?_ later
  unfold first?
  rw [numeral?_eq_none noDigit other.1]
  simp [other, starts, span]

theorem scans_name {c : Char} {name : List Char} (letter : c.isAlpha = true)
    (all : name.all isNameChar = true) : Scans (c :: name) [.name (c :: name)] := by
  intro rest more delimited later
  have ends : delimiters.all endsName = true := by decide
  exact .name letter all (fun d found => List.all_eq_true.mp ends d (delimited d found)) later

/-! ### Strings -/

theorem scans_quoted {quote : Char} {chars : List Char} (isQuote : quote = '"' ∨ quote = '\'')
    (span : ∀ rest, quotedSpan quote (chars ++ quote :: rest) = (chars, .closed rest)) :
    Scans (quote :: (chars ++ [quote])) [.str chars] := by
  intro rest more _ later
  rw [List.cons_append]
  refine .token ?_ ?_ later
  · rcases isQuote with rfl | rfl <;> rfl
  · unfold first?
    rcases isQuote with rfl | rfl
    · rw [numeral?_eq_none (by decide) (by decide)]
      simp [span]
    · rw [numeral?_eq_none (by decide) (by decide)]
      simp [span]

end DocExamples.Literal.Token
