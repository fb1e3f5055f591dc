import DocExamples.Proofs.FloatText
import DocExamples.Proofs.Script.Lexing
import DocExamples.Proofs.Script.Rendering
import DocExamples.Proofs.Script.ReprLiteral
/-!
The tokens of what a session echoes: those of constants, numbers and strings, and those of
containers, which are put together from the tokens of their parts.
-/
namespace DocExamples.Script

open Text

/-- In front of a delimiter the part gives these tokens, however many brackets are open. -/
def Lexes (part : List Char) (tokens : List Token) : Prop :=
  ∀ opened rest more, Delimited rest → Lexed opened rest more →
    Lexed opened (part ++ rest) (tokens ++ more)

theorem Lexes.tokens_eq {source : String} {found : List Token} (lexes : Lexes source.toList found) :
    tokens source = .ok found := by
  have lexed := lexes 0 [] [] delimited_nil .done
  rw [List.append_nil, List.append_nil] at lexed
  exact tokens_eq_ok.mpr lexed

theorem Lexed.plain {opened : Nat} {c : Char} {text left : List Char} {token : Token}
    {tokens : List Token} (first : IsLexeme c text (some token) left)
    (bracketless : openAfter opened token = .ok opened) (kept : token.isNewline = false)
    (later : Lexed opened left tokens) : Lexed opened (c :: text) (token :: tokens) :=
  .token first bracketless (fun isNewline => by rw [kept] at isNewline; cases isNewline) later

/-! ### Punctuation -/

section

variable {opened : Nat} {text : List Char} {tokens : List Token}

/-- A symbol of one character that starts no other symbol. -/
theorem isLexeme_symbol {c : Char} {s : Symbol} (plain : startsPlain c = true)
    (noNumber : c.isDigit = false ∧ c ≠ '.') (alone : ∀ text, symbolAt? (c :: text) = some (s, text))
    (text : List Char) : IsLexeme c text (some (.symbol s)) text :=
  .symbol plain (numeral?_eq_none noNumber.1 noNumber.2 text) (alone text)

theorem Lexed.comma (later : Lexed opened text tokens) :
    Lexed opened (',' :: text) (.symbol .comma :: tokens) :=
  .plain (isLexeme_symbol rfl (by decide) (fun _ => rfl) _) rfl rfl later

theorem Lexed.colon (later : Lexed opened text tokens) :
    Lexed opened (':' :: text) (.symbol .colon :: tokens) :=
  .plain (isLexeme_symbol rfl (by decide) (fun _ => rfl) _) rfl rfl later

theorem Lexed.space (later : Lexed opened text tokens) : Lexed opened (' ' :: text) tokens :=
  .skip (.blank (.inl rfl)) later

theorem symbolAt?_minus {c : Char} (apart : c ≠ '=') (text : List Char) :
    symbolAt? ('-' :: c :: text) = some (.minus, c :: text) := by
  have noLonger : stripStart? "-=".toList ('-' :: c :: text) = none := by
    rw [Option.eq_none_iff_forall_ne_some]
    intro left found
    cases stripStart?_eq_some.mp found
    exact apart rfl
  unfold symbolAt? Symbol.table
  simp only [List.findSome?_cons, noLonger]
  rfl

/-- A minus sign in front of a digit. -/
theorem Lexed.minus {c : Char} (digit : c.isDigit = true) (later : Lexed opened (c :: text) tokens) :
    Lexed opened ('-' :: c :: text) (.symbol .minus :: tokens) := by
  have apart : c ≠ '=' := by
    rintro rfl
    cases digit
  have noNumeral : numeral? ('-' :: c :: text) = none :=
    numeral?_eq_none (by decide) (by decide) _
  exact .plain (.symbol rfl noNumeral (symbolAt?_minus apart text)) rfl rfl later

end

/-! ### Constants and numbers -/

theorem lexes_name {c : Char} {name : List Char} (starts : isNameStart c = true)
    (all : name.all isNameChar = true) : Lexes (c :: name) [nameToken (c :: name)] := by
  intro opened rest more delimited later
  have stops := delimited.stops (p := isNameChar) (by decide)
  have here : IsLexeme c (name ++ rest) (some (nameToken (c :: name))) rest := by
    have taken : (name ++ rest).takeWhile isNameChar = name := by
      rw [takeWhile_append_of_stops stops, List.takeWhile_eq_self_iff.mpr (List.all_eq_true.mp all)]
    have dropped : (name ++ rest).dropWhile isNameChar = rest := by
      rw [dropWhile_append_of_stops stops, List.dropWhile_eq_nil_iff.mpr (List.all_eq_true.mp all)]
      rfl
    have lexeme := @IsLexeme.name c (name ++ rest) starts
    rwa [taken, dropped] at lexeme
  have word : openAfter opened (nameToken (c :: name)) = .ok opened ∧
      (nameToken (c :: name)).isNewline = false := by
    unfold nameToken
    split <;> exact ⟨rfl, rfl⟩
  exact .plain here word.1 word.2 later

theorem lexes_none : Lexes (Value.repr .none).toList Expr.none.written :=
  lexes_name (by decide) (by decide)

theorem lexes_bool (b : Bool) : Lexes (Value.bool b).repr.toList (Expr.bool b).written := by
  cases b with
  | false => exact lexes_name (by decide) (by decide)
  | true => exact lexes_name (by decide) (by decide)

theorem startsPlain_of_isDigit {c : Char} (digit : c.isDigit = true) : startsPlain c = true := by
  have noLetter : c.isAlpha = false := by
    cases letter : c.isAlpha with
    | false => rfl
    | true =>
      rw [(Literal.Token.of_isAlpha letter).1] at digit
      cases digit
  have others : [' ', '\t', '\r', '#', '\n', '\\', '"', '\'', '_'].any (·.isDigit) = false := by
    decide
  have other : c ∉ [' ', '\t', '\r', '#', '\n', '\\', '"', '\'', '_'] := fun member =>
    List.any_eq_false.mp others c member digit
  simp only [List.mem_cons, List.not_mem_nil, or_false, not_or] at other
  simp [startsPlain, isNameStart, noLetter, other]

/-- A numeral that reaches up to the next delimiter. -/
theorem lexes_numeral {chars : List Char} {whole : Bool} {token : Token}
    (starts : ∃ c more, c.isDigit = true ∧ chars = c :: more)
    (found : ∀ {rest}, Delimited rest → numeral? (chars ++ rest) = some ⟨chars, whole⟩)
    (reads : numeralToken ⟨chars, whole⟩ = .ok token)
    (bracketless : ∀ opened, openAfter opened token = .ok opened) (kept : token.isNewline = false) :
    Lexes chars [token] := by
  obtain ⟨c, chars, digit, rfl⟩ := starts
  intro opened rest more delimited later
  have left : (c :: (chars ++ rest)).drop (c :: chars).length = rest := List.drop_left
  have here : IsLexeme c (chars ++ rest) (some token)
      ((c :: (chars ++ rest)).drop (c :: chars).length) :=
    .numeral (startsPlain_of_isDigit digit) (found delimited) reads
  rw [left] at here
  exact .plain here (bracketless opened) kept later

theorem lexes_digits {n : Nat} {i : Int64} (value : i.toInt = n) :
    Lexes (Decimal.digitChars n) (Expr.int i).written := by
  have all := Decimal.allDigits_digitChars n
  have filled := Decimal.digitChars_ne_nil n
  obtain ⟨c, more, shape⟩ := List.exists_cons_of_ne_nil filled
  have digit : c.isDigit = true := all c (by simp [shape])
  have reads : numeralToken ⟨Decimal.digitChars n, true⟩ = .ok (.int i) := by
    have isDigits : ((Decimal.digitChars n).isEmpty ||
        !(Decimal.digitChars n).all (·.isDigit)) = false := by
      simpa [filled] using show ∀ c ∈ Decimal.digitChars n, c.isDigit = true from all
    have unsigned : Decimal.takeSign (Decimal.digitChars n) = (false, Decimal.digitChars n) := by
      rw [shape, Decimal.takeSign_of_isDigit digit]
    have read : Decimal.readInt64? (Decimal.digitChars n) = some i := by
      unfold Decimal.readInt64?
      rw [unsigned]
      dsimp only
      rw [isDigits, if_neg Bool.false_ne_true, if_neg Bool.false_ne_true,
        Decimal.ofDigits_digitChars, Integer.word?_eq_some_iff, value]
    rw [numeralToken, if_pos rfl, read]
    rfl
  exact lexes_numeral ⟨c, more, digit, shape⟩ (fun delimited => numeral?_digits all filled delimited)
    reads (fun _ => rfl) rfl

theorem lexes_floatText {text : List Char} {x : Float} (form : IsFloatText text)
    (read : Decimal.readFloat? text = some x) : Lexes text (Expr.float x).written := by
  have reads : numeralToken ⟨text, false⟩ = .ok (.float x) := by
    rw [numeralToken, if_neg Bool.false_ne_true, read]
    rfl
  exact lexes_numeral form.starts (fun delimited => form.numeral?_append delimited) reads
    (fun _ => rfl) rfl

/-- A minus sign in front of a numeral. -/
theorem Lexes.minus {part : List Char} {tokens : List Token}
    (starts : ∃ c more, c.isDigit = true ∧ part = c :: more) (lexes : Lexes part tokens) :
    Lexes ('-' :: part) (.symbol .minus :: tokens) := by
  obtain ⟨c, chars, digit, rfl⟩ := starts
  intro opened rest more delimited later
  exact .minus digit (lexes opened rest more delimited later)

/-! ### Strings -/

theorem lexes_str (s : String) : Lexes (Value.str s).repr.toList (Expr.str s).written := by
  intro opened rest more _ later
  have isQuote := Literal.quoteFor_eq s.toList
  have span := Literal.quotedSpan_escaped isQuote s.toList rest
  have here := IsLexeme.str isQuote span
  have meaning : ∀ d ∈ Literal.escapes, escapeMeaning d = Literal.escapeMeaning d := by
    simp [Literal.escapes, escapeMeaning, Literal.escapeMeaning]
  rw [Literal.unescape_escaped meaning isQuote, String.ofList_toList] at here
  have text : (Value.str s).repr.toList = literalText s.toList := String.toList_ofList
  have shape : literalText s.toList ++ rest = quoteFor s.toList ::
      (s.toList.flatMap (escapeIn (quoteFor s.toList)) ++ quoteFor s.toList :: rest) := by
    simp [literalText]
  rw [text, shape]
  exact .plain here rfl rfl later

/-! ### Containers -/

/-- What stands between brackets. -/
theorem Lexes.between {first last : Char} {opening closing : Symbol} {part : List Char}
    {tokens : List Token} (isFirst : ∀ text, IsLexeme first text (some (.symbol opening)) text)
    (isLast : ∀ text, IsLexeme last text (some (.symbol closing)) text)
    (opens : ∀ opened, openAfter opened (.symbol opening) = .ok (opened + 1))
    (closes : ∀ opened, openAfter (opened + 1) (.symbol closing) = .ok opened)
    (delimits : last ∈ delimiters) (lexes : Lexes part tokens) :
    Lexes (first :: (part ++ [last])) (between opening closing tokens) := by
  intro opened rest more _ later
  rw [between_append, List.cons_append, List.append_assoc]
  refine .token (isFirst _) (opens opened) (fun isNewline => by cases isNewline) ?_
  refine lexes _ _ _ (delimited_cons delimits) ?_
  exact .token (isLast _) (closes opened) (fun isNewline => by cases isNewline) later

theorem Lexes.inBrackets {part : List Char} {tokens : List Token} (lexes : Lexes part tokens) :
    Lexes ('[' :: (part ++ [']'])) (Script.between .leftBracket .rightBracket tokens) :=
  lexes.between (isLexeme_symbol rfl (by decide) fun _ => rfl)
    (isLexeme_symbol rfl (by decide) fun _ => rfl) (fun _ => rfl) (fun _ => rfl) (by decide)

theorem Lexes.inParens {part : List Char} {tokens : List Token} (lexes : Lexes part tokens) :
    Lexes ('(' :: (part ++ [')'])) (Script.between .leftParen .rightParen tokens) :=
  lexes.between (isLexeme_symbol rfl (by decide) fun _ => rfl)
    (isLexeme_symbol rfl (by decide) fun _ => rfl) (fun _ => rfl) (fun _ => rfl) (by decide)

theorem Lexes.inBraces {part : List Char} {tokens : List Token} (lexes : Lexes part tokens) :
    Lexes ('\x7b' :: (part ++ ['\x7d'])) (Script.between .leftBrace .rightBrace tokens) :=
  lexes.between (isLexeme_symbol rfl (by decide) fun _ => rfl)
    (isLexeme_symbol rfl (by decide) fun _ => rfl) (fun _ => rfl) (fun _ => rfl) (by decide)

theorem Lexes.nil : Lexes [] [] := fun _ _ _ _ later => later

/-- Parts with commas between them. -/
theorem lexes_separated {α : Type} {text : α → String} {written : α → List Token} {items : List α}
    (each : ∀ a ∈ items, Lexes (text a).toList (written a)) :
    Lexes (", ".intercalate (items.map text)).toList (separated (items.map written)) := by
  induction items with
  | nil => exact .nil
  | cons a items ih =>
    obtain ⟨first, others⟩ := List.forall_mem_cons.mp each
    cases items with
    | nil => simpa [separated, furtherItems] using first
    | cons next items =>
      have shape : (", ".intercalate ((a :: next :: items).map text)).toList =
          (text a).toList ++ ',' :: ' ' :: (", ".intercalate ((next :: items).map text)).toList := by
        rw [List.map_cons, List.map_cons, String.intercalate_cons_cons]
        simp
      have parts : separated ((a :: next :: items).map written) =
          written a ++ .symbol .comma :: separated ((next :: items).map written) := rfl
      rw [shape, parts]
      intro opened rest more delimited later
      rw [List.append_assoc, List.append_assoc]
      refine first opened _ _ (delimited_cons (by decide)) ?_
      exact .comma (.space (ih others opened rest more delimited later))

/-- A comma after a part. -/
theorem Lexes.comma {part : List Char} {tokens : List Token} (lexes : Lexes part tokens) :
    Lexes (part ++ [',']) (tokens ++ [.symbol .comma]) := by
  intro opened rest more _ later
  rw [List.append_assoc, List.append_assoc]
  exact lexes opened _ _ (delimited_cons (by decide)) (.comma later)

/-- A key and its value. -/
theorem Lexes.entry {key value : List Char} {keyTokens valueTokens : List Token}
    (first : Lexes key keyTokens) (second : Lexes value valueTokens) :
    Lexes (key ++ ':' :: ' ' :: value) (keyTokens ++ .symbol .colon :: valueTokens) := by
  intro opened rest more delimited later
  rw [List.append_assoc, List.append_assoc]
  refine first opened _ _ (delimited_cons (by decide)) ?_
  exact .colon (.space (second opened rest more delimited later))

end DocExamples.Script
