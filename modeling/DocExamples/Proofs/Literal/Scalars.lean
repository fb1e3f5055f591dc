import DocExamples.Proofs.Decimal
import DocExamples.Proofs.Literal.Reading
import DocExamples.Script.ValueText
/-!
The texts of numbers, strings and constants are read as what they show.
-/
namespace DocExamples.Literal

open Text Token

variable {namedTuples : Bool} {depth : Nat}

/-- Tokens that a number, a constant or a mark of abbreviation may start with. -/
def startsElement : Token → Bool
  | .minus | .float _ | .int _ | .name _ | .ellipsis => true
  | _ => false

/-- The text of an element of an array, which is read at any depth. -/
structure IsElement (namedTuples : Bool) (text : List Char) (tokens : List Token) (l : Literal) :
    Prop where
  scans : Scans text tokens
  reads : ∀ depth, Reads namedTuples (depth + 1) tokens l
  starts : ∃ token rest, tokens = token :: rest ∧ startsElement token = true

theorem IsElement.isItem {text : List Char} {tokens : List Token} {l : Literal}
    (element : IsElement namedTuples text tokens l) : IsItem namedTuples (depth + 1) text tokens l :=
  ⟨element.scans, element.reads depth⟩

/-! ### Readers of one or two tokens -/

theorem reads_int (digits : List Char) :
    Reads namedTuples (depth + 1) [.int digits] (signed false (wholeNumber digits)) where
  value _ _ := rfl
  starts := ⟨_, _, rfl, by simp⟩

theorem reads_negativeInt (digits : List Char) :
    Reads namedTuples (depth + 1) [.minus, .int digits] (signed true (wholeNumber digits)) where
  value _ _ := rfl
  starts := ⟨_, _, rfl, by simp⟩

theorem reads_str (chars : List Char) :
    Reads namedTuples (depth + 1) [.str chars]
      (.leaf (.str (String.ofList (unescape escapeMeaning chars)))) where
  value _ _ := rfl
  starts := ⟨_, _, rfl, by simp⟩

theorem reads_float {chars : List Char} {x : Float} (read : Decimal.readFloat? chars = some x) :
    Reads namedTuples (depth + 1) [.float chars] (signed false ⟨x, .float⟩) where
  value rest _ := by
    change (do return signed false ⟨← Decimal.readFloat? chars, .float⟩ : Reader Literal) rest = _
    rw [read]
    rfl
  starts := ⟨_, _, rfl, by simp⟩

theorem reads_negativeFloat {chars : List Char} {x : Float}
    (read : Decimal.readFloat? chars = some x) :
    Reads namedTuples (depth + 1) [.minus, .float chars] (signed true ⟨x, .float⟩) where
  value rest _ := by
    change (do return signed true ⟨← Decimal.readFloat? chars, .float⟩ : Reader Literal) rest = _
    rw [read]
    rfl
  starts := ⟨_, _, rfl, by simp⟩

/-- A name that no opening parenthesis follows is not that of a call. -/
theorem value_name (name : List Char) {rest : List Token} (noCall : rest.head? ≠ some .leftParen) :
    value namedTuples (depth + 1) (.name name :: rest) = scalar (.name name :: rest) := by
  cases rest with
  | nil => rfl
  | cons token rest =>
    cases token with
    | leftParen => exact absurd rfl noCall
    | leftBracket | rightBracket | rightParen | leftBrace | rightBrace | comma | colon | equals
    | ellipsis | masked | minus | plus | float | int | str | name => rfl

theorem reads_name {name : List Char} {l : Literal} (known : constant false name = some l) :
    Reads namedTuples (depth + 1) [.name name] l where
  value rest noCall := by
    rw [List.singleton_append, value_name name noCall]
    change (constant false name : Reader Literal) rest = _
    rw [known]
    rfl
  starts := ⟨_, _, rfl, by simp⟩

theorem reads_negativeName {name : List Char} {l : Literal} (known : constant true name = some l) :
    Reads namedTuples (depth + 1) [.minus, .name name] l where
  value rest _ := by
    change (constant true name : Reader Literal) rest = _
    rw [known]
    rfl
  starts := ⟨_, _, rfl, by simp⟩

theorem reads_ellipsis : Reads namedTuples (depth + 1) [.ellipsis] .ellipsis where
  value _ _ := rfl
  starts := ⟨_, _, rfl, by simp⟩

/-! ### Numbers -/

theorem signed_wholeNumber (negative : Bool) {n : Nat} (small : n < 2 ^ 64) :
    signed negative (wholeNumber (Decimal.digitChars n)) =
      .leaf (.number ⟨Binary64.ofRatio negative n 1, .int⟩) := by
  rw [signed, wholeNumber, Decimal.ofDigits_digitChars, Decimal.toFloat_whole small]
  cases negative with
  | false => rfl
  | true => rw [if_pos rfl, Binary64.neg_ofRatio]

theorem ne_minus_of_isDigit {c : Char} (digit : c.isDigit = true) : c ≠ '-' := by
  rintro rfl
  cases digit

theorem toList_toString_int (i : Int) :
    (toString i).toList =
      if i < 0 then '-' :: Decimal.digitChars i.natAbs else Decimal.digitChars i.natAbs := by
  cases i with
  | ofNat n => rfl
  | negSucc n =>
    rw [if_pos (Int.negSucc_lt_zero n)]
    exact String.toList_append

theorem isElement_int (i : Int64) :
    ∃ tokens, IsElement namedTuples (Script.intText i).toList tokens
      (.leaf (.number ⟨Binary64.ofInt i.toInt, .int⟩)) := by
  have lower := i.le_toInt
  have upper := i.toInt_lt
  have small : i.toInt.natAbs < 2 ^ 64 := by omega
  have digits := Decimal.allDigits_digitChars i.toInt.natAbs
  have nonempty := Decimal.digitChars_ne_nil i.toInt.natAbs
  have scans := scans_digits digits nonempty
  rw [Script.intText, toList_toString_int, Binary64.ofInt, ← signed_wholeNumber _ small]
  by_cases negative : i.toInt < 0
  · rw [if_pos negative, decide_eq_true negative]
    refine ⟨[.minus, .int (Decimal.digitChars i.toInt.natAbs)], ?_, fun _ => reads_negativeInt _,
      _, _, rfl, rfl⟩
    obtain ⟨c, chars, same⟩ := List.exists_cons_of_ne_nil nonempty
    rw [same] at digits scans ⊢
    exact scans.minus (ne_minus_of_isDigit (digits c List.mem_cons_self))
  · rw [if_neg negative, decide_eq_false negative]
    exact ⟨_, scans, fun _ => reads_int _, _, _, rfl, rfl⟩

/-- The forms of the text of a double. -/
inductive IsDoubleText : List Char → Prop where
  | nan : IsDoubleText ['n', 'a', 'n']
  | infinity (negative : Bool) : IsDoubleText (Script.specialText negative)
  | number (negative : Bool) {body : List Char} (form : IsFloatText body) :
    IsDoubleText (Script.signed negative body)

theorem isDoubleText_render (x : Float) : IsDoubleText (Script.floatFormat.render x).toList := by
  match parts : Binary64.parts x with
  | .nan =>
    rw [Decimal.FloatFormat.render, parts]
    exact .nan
  | .infinite false =>
    rw [Decimal.FloatFormat.render, parts]
    exact .infinity false
  | .infinite true =>
    rw [Decimal.FloatFormat.render, parts]
    exact .infinity true
  | .finite negative mantissa exponent =>
    obtain ⟨body, form, text⟩ := @Decimal.render_finite Script.floatFormat _ _ rfl rfl _ _ parts
    rw [text]
    exact .number negative form

theorem isElement_float {text : List Char} (form : IsDoubleText text) :
    ∃ y tokens, Decimal.readFloat? text = some y ∧
      IsElement namedTuples text tokens (.leaf (.number ⟨y, .float⟩)) := by
  have scansInf : Scans ['i', 'n', 'f'] [.name ['i', 'n', 'f']] :=
    scans_name (by decide) (by decide)
  cases form with
  | nan =>
    exact ⟨Binary64.nan, _, rfl, scans_name (by decide) (by decide), fun _ => reads_name rfl,
      _, _, rfl, rfl⟩
  | infinity negative =>
    cases negative with
    | false => exact ⟨Binary64.infinity, _, rfl, scansInf, fun _ => reads_name rfl, _, _, rfl, rfl⟩
    | true =>
      refine ⟨-Binary64.infinity, _, ?_, scansInf.minus (by decide),
        fun _ => reads_negativeName rfl, _, _, rfl, rfl⟩
      rw [Binary64.neg_infinity]
      rfl
  | @number negative body form =>
    obtain ⟨y, read, readNegative⟩ := Decimal.readFloat?_isSome form
    have scans := scans_floatText form
    cases negative with
    | false => exact ⟨y, _, read, scans, fun _ => reads_float read, _, _, rfl, rfl⟩
    | true =>
      refine ⟨-y, [.minus, .float body], readNegative, ?_, fun _ => reads_negativeFloat read,
        _, _, rfl, rfl⟩
      obtain ⟨c, rest, digit, rfl⟩ := form.starts
      exact scans.minus (ne_minus_of_isDigit digit)

/-! ### Constants -/

theorem isItem_none :
    IsItem namedTuples (depth + 1) "None".toList [.name "None".toList] (.leaf .none) :=
  ⟨scans_name (by decide) (by decide), reads_name rfl⟩

theorem isElement_bool (b : Bool) :
    IsElement namedTuples (Script.boolText b).toList
      [.name (Script.boolText b).toList] (.leaf (.bool b)) := by
  cases b with
  | false => exact ⟨scans_name (by decide) (by decide), fun _ => reads_name rfl, _, _, rfl, rfl⟩
  | true => exact ⟨scans_name (by decide) (by decide), fun _ => reads_name rfl, _, _, rfl, rfl⟩

theorem isElement_ellipsis :
    IsElement namedTuples "...".toList [.ellipsis] .ellipsis := by
  refine ⟨fun rest more _ later => ?_, fun _ => reads_ellipsis, _, _, rfl, rfl⟩
  exact @Scanned.token '.' ['.', '.'] _ _ _ rfl rfl later

/-! ### Strings -/

theorem quoteFor_eq (text : List Char) :
    Script.quoteFor text = '"' ∨ Script.quoteFor text = '\'' := by
  unfold Script.quoteFor
  split
  · exact .inl rfl
  · exact .inr rfl

/-- The characters that a backslash is written in front of. -/
def escapes : List Char := ['\\', 'n', 't', '"', '\'']

/-- How a character is written: a backslash in front of one of the escapes, or a character that a
string may hold as it is. -/
theorem escapeIn_cases {quote : Char} (isQuote : quote = '"' ∨ quote = '\'') (c : Char) :
    (∃ d ∈ escapes, Script.escapeIn quote c = ['\\', d] ∧ (escapeMeaning d).getD d = c) ∨
      Script.escapeIn quote c = [c] ∧ c ≠ '\\' ∧ c ≠ '\n' ∧ c ≠ quote := by
  unfold Script.escapeIn
  split
  · next same =>
    subst same
    exact .inl ⟨'\\', by decide, rfl, rfl⟩
  · split
    · next same =>
      subst same
      exact .inl ⟨'n', by decide, rfl, rfl⟩
    · split
      · next same =>
        subst same
        exact .inl ⟨'t', by decide, rfl, rfl⟩
      · split
        · next same =>
          subst same
          rcases isQuote with rfl | rfl
          · exact .inl ⟨'"', by decide, rfl, rfl⟩
          · exact .inl ⟨'\'', by decide, rfl, rfl⟩
        · next noBackslash noFeed _ other => exact .inr ⟨rfl, noBackslash, noFeed, other⟩

theorem quotedSpan_quote (quote : Char) (rest : List Char) :
    quotedSpan quote (quote :: rest) = ([], .closed rest) := by
  unfold quotedSpan
  exact if_pos rfl

theorem quotedSpan_escape {quote d : Char} (noBackslash : '\\' ≠ quote) (noFeed : d ≠ '\n')
    (rest : List Char) : quotedSpan quote ('\\' :: d :: rest) =
      ('\\' :: d :: (quotedSpan quote rest).1, (quotedSpan quote rest).2) := by
  conv_lhs => unfold quotedSpan
  simp [noBackslash, noFeed]

theorem quotedSpan_plain {quote c : Char} (inside : c ≠ quote) (noFeed : c ≠ '\n')
    (noBackslash : c ≠ '\\') (rest : List Char) : quotedSpan quote (c :: rest) =
      (c :: (quotedSpan quote rest).1, (quotedSpan quote rest).2) := by
  conv_lhs => unfold quotedSpan
  simp [inside, noFeed, noBackslash]

/-- The closing quote is the first that no backslash escapes. -/
theorem quotedSpan_escaped {quote : Char} (isQuote : quote = '"' ∨ quote = '\'')
    (text rest : List Char) :
    quotedSpan quote (text.flatMap (Script.escapeIn quote) ++ quote :: rest) =
      (text.flatMap (Script.escapeIn quote), .closed rest) := by
  have noBackslash : '\\' ≠ quote := by rcases isQuote with rfl | rfl <;> decide
  induction text with
  | nil => exact quotedSpan_quote quote rest
  | cons c text ih =>
    rw [List.flatMap_cons, List.append_assoc]
    rcases escapeIn_cases isQuote c with ⟨d, member, escaped, -⟩ | ⟨kept, other, noFeed, inside⟩
    · have noFeed : d ≠ '\n' := fun same => absurd (same ▸ member) (by decide)
      rw [escaped, List.cons_append, List.singleton_append, quotedSpan_escape noBackslash noFeed, ih]
      rfl
    · rw [kept, List.singleton_append, quotedSpan_plain inside noFeed other, ih]
      rfl

/-- Escapes are undone wherever they mean the same. -/
theorem unescape_escaped {meaning : Char → Option Char}
    (same : ∀ d ∈ escapes, meaning d = escapeMeaning d) {quote : Char}
    (isQuote : quote = '"' ∨ quote = '\'') (text : List Char) :
    unescape meaning (text.flatMap (Script.escapeIn quote)) = text := by
  induction text with
  | nil => rfl
  | cons c text ih =>
    rw [List.flatMap_cons]
    rcases escapeIn_cases isQuote c with ⟨d, member, escaped, means⟩ | ⟨kept, other, -⟩
    · rw [escaped]
      simp [unescape, same d member, means, ih]
    · rw [kept]
      simp [unescape, other, ih]

theorem isItem_str (s : String) :
    ∃ tokens, IsItem namedTuples (depth + 1) (Script.quotedText s).toList tokens
      (.leaf (.str s)) := by
  have isQuote := quoteFor_eq s.toList
  have scans := scans_quoted isQuote (quotedSpan_escaped isQuote s.toList)
  have reads := @reads_str namedTuples depth
    (s.toList.flatMap (Script.escapeIn (Script.quoteFor s.toList)))
  rw [unescape_escaped (fun _ _ => rfl) isQuote, String.ofList_toList] at reads
  rw [Script.quotedText, String.toList_ofList]
  exact ⟨_, scans, reads⟩

end DocExamples.Literal
