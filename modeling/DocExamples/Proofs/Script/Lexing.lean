import DocExamples.Proofs.Except
import DocExamples.Proofs.Text.Numerals
import DocExamples.Script.Lexer
/-!
The tokens of a text as a relation over its lexemes, and the tokens of a text that is put together
from others.
-/
namespace DocExamples.Text

variable {rest : List Char}

/-! ### Spans in a longer text -/

theorem takeWhile_append_of_stops {p : Char → Bool} (stops : ∀ c, rest.head? = some c → p c = false)
    (text : List Char) : (text ++ rest).takeWhile p = text.takeWhile p := by
  induction text with
  | nil =>
    cases rest with
    | nil => rfl
    | cons c more => simp [stops c rfl]
  | cons c text ih => by_cases holds : p c = true <;> simp [holds, ih]

theorem dropWhile_append_of_stops {p : Char → Bool} (stops : ∀ c, rest.head? = some c → p c = false)
    (text : List Char) : (text ++ rest).dropWhile p = text.dropWhile p ++ rest := by
  induction text with
  | nil =>
    cases rest with
    | nil => rfl
    | cons c more => simp [stops c rfl]
  | cons c text ih => by_cases holds : p c = true <;> simp [holds, ih]

theorem quotedSpan_append {quote : Char} {text chars left : List Char}
    (closed : quotedSpan quote text = (chars, .closed left)) :
    quotedSpan quote (text ++ rest) = (chars, .closed (left ++ rest)) := by
  fun_induction quotedSpan quote text generalizing chars left with
  | case1 => cases closed
  | case2 more =>
    cases closed
    rw [List.cons_append, quotedSpan.eq_def]
    simp
  | case3 => cases closed
  | case4 => cases closed
  | case5 => cases closed
  | case6 d tail noFeed chars' stop span noQuote _ ih =>
    cases closed
    rw [List.cons_append, List.cons_append, quotedSpan]
    simp [noQuote, noFeed, ih span]
  | case7 c tail noQuote noFeed noBackslash chars' stop span ih =>
    cases closed
    rw [List.cons_append, quotedSpan.eq_def]
    simp [noQuote, noFeed, noBackslash, ih span]

theorem quotedSpan_shorter {quote : Char} {text chars left : List Char}
    (closed : quotedSpan quote text = (chars, .closed left)) : left.length < text.length := by
  fun_induction quotedSpan quote text generalizing chars left with
  | case1 => cases closed
  | case2 more =>
    cases closed
    exact Nat.lt_succ_self _
  | case3 => cases closed
  | case4 => cases closed
  | case5 => cases closed
  | case6 d tail noFeed chars' stop span noQuote _ ih =>
    cases closed
    exact Nat.lt_add_right 2 (ih span)
  | case7 c tail noQuote noFeed noBackslash chars' stop span ih =>
    cases closed
    exact Nat.lt_succ_of_lt (ih span)

theorem fractionSpan_append_of_delimited (delimited : Delimited rest) (leading : Bool)
    (text : List Char) : fractionSpan leading (text ++ rest) = fractionSpan leading text := by
  cases text with
  | nil =>
    cases rest with
    | nil => rfl
    | cons c more =>
      have noPoint : c ≠ '.' := by
        simpa using delimited.stops (p := (· = '.')) (by decide) c rfl
      simp [fractionSpan, noPoint]
  | cons c text =>
    rw [List.cons_append, fractionSpan.eq_def, fractionSpan.eq_def]
    split
    · next same =>
      cases same
      simp [takeWhile_append_of_stops delimited.stopsDigits]
    · next other =>
      split
      · next same =>
        cases same
        exact absurd rfl (other _)
      · rfl

theorem exponentSpan_append_of_delimited (delimited : Delimited rest) (text : List Char) :
    exponentSpan (text ++ rest) = exponentSpan text := by
  have digits := takeWhile_append_of_stops delimited.stopsDigits
  match text with
  | [] => exact IsExponent.none.exponentSpan_append delimited
  | [e] =>
    cases rest with
    | nil => rfl
    | cons c more =>
      have noSign : c ≠ '+' ∧ c ≠ '-' := by
        simpa using delimited.stops (p := fun c => c = '+' ∨ c = '-') (by decide) c rfl
      have noDigit := delimited.stopsDigits c rfl
      simp [exponentSpan, noSign, noDigit]
  | e :: c :: text =>
    by_cases plus : c = '+'
    · simp [exponentSpan, plus, digits]
    · by_cases minus : c = '-'
      · simp [exponentSpan, minus, digits]
      · have same := digits (c :: text)
        rw [List.cons_append] at same
        simp [exponentSpan, plus, minus, same]

theorem fractionSpan_length_le (leading : Bool) (text : List Char) :
    (fractionSpan leading text).length ≤ text.length := by
  unfold fractionSpan
  split
  · next digits =>
    have shorter := (List.takeWhile_sublist (l := digits) (·.isDigit)).length_le
    dsimp only
    split
    · exact Nat.succ_le_succ shorter
    · exact Nat.zero_le _
  · exact Nat.zero_le _

theorem exponentSpan_length_le (text : List Char) : (exponentSpan text).length ≤ text.length := by
  unfold exponentSpan
  split
  · exact Nat.le_refl _
  · next e rest =>
    have bound (sign : List Char) (within : sign.length ≤ rest.length) :
        (e :: sign ++ (rest.drop sign.length).takeWhile (·.isDigit)).length ≤ rest.length + 1 := by
      have shorter := (List.takeWhile_sublist (l := rest.drop sign.length) (·.isDigit)).length_le
      rw [List.length_drop] at shorter
      rw [List.length_append, List.length_cons]
      omega
    have shown (sign : List Char) (within : sign.length ≤ rest.length) :
        (let digits := (rest.drop sign.length).takeWhile (·.isDigit)
          if digits.isEmpty then [] else e :: sign ++ digits).length ≤ rest.length + 1 := by
      dsimp only
      split
      · exact Nat.zero_le _
      · exact bound sign within
    split
    · split
      · exact shown ['+'] (by simp)
      · exact shown ['-'] (by simp)
      · exact shown [] (by simp)
    · exact Nat.zero_le _

theorem mantissa_length_le (leading : Bool) (text : List Char) :
    (text.takeWhile (·.isDigit) ++
      fractionSpan leading (text.drop (text.takeWhile (·.isDigit)).length)).length ≤ text.length := by
  have digits := (List.takeWhile_sublist (l := text) (·.isDigit)).length_le
  have fraction := fractionSpan_length_le leading (text.drop (text.takeWhile (·.isDigit)).length)
  rw [List.length_drop] at fraction
  rw [List.length_append]
  omega

theorem numeral?_chars {text : List Char} {n : Numeral} (found : numeral? text = some n) :
    n.chars ≠ [] ∧ n.chars.length ≤ text.length := by
  have mantissa := mantissa_length_le (!(text.takeWhile (·.isDigit)).isEmpty) text
  unfold numeral? at found
  dsimp only at found
  split at found
  · cases found
  · next some =>
    cases found
    have exponent := exponentSpan_length_le (text.drop (text.takeWhile (·.isDigit) ++
      fractionSpan (!(text.takeWhile (·.isDigit)).isEmpty)
        (text.drop (text.takeWhile (·.isDigit)).length)).length)
    rw [List.length_drop] at exponent
    constructor
    · exact List.append_ne_nil_of_left_ne_nil (by simpa using some) _
    · rw [List.length_append]
      omega

/-- The numeral at the front does not depend on what follows a delimiter. -/
theorem numeral?_append_of_delimited (delimited : Delimited rest) (text : List Char) :
    numeral? (text ++ rest) = numeral? text := by
  have digits := takeWhile_append_of_stops delimited.stopsDigits text
  have digitsWithin := (List.takeWhile_sublist (l := text) (·.isDigit)).length_le
  unfold numeral?
  dsimp only
  rw [digits, List.drop_append_of_le_length digitsWithin, fractionSpan_append_of_delimited delimited,
    List.drop_append_of_le_length (mantissa_length_le _ text),
    exponentSpan_append_of_delimited delimited]

end DocExamples.Text

namespace DocExamples.Script

open Text

/-! ### Lexemes -/

/-- No symbol has a delimiter behind its first character. -/
theorem symbols_undelimited :
    Symbol.table.all (fun (_, written, _) => written.toList.tail.all (!delimiters.contains ·)) =
      true := by decide

theorem stripStart?_append {rest : List Char} (delimited : Delimited rest) {written text : List Char}
    (undelimited : ∀ c ∈ written.tail, c ∉ delimiters) (some : text ≠ []) :
    stripStart? written (text ++ rest) = (stripStart? written text).map (· ++ rest) := by
  cases here : stripStart? written text with
  | some left =>
    have shape := stripStart?_eq_some.mp here
    rw [Option.map_some, stripStart?_eq_some, shape, List.append_assoc]
  | none =>
    rw [Option.map_none, Option.eq_none_iff_forall_ne_some]
    intro left found
    have noPrefix {left' : List Char} : text ≠ written ++ left' := fun same =>
      Option.some_ne_none left' ((stripStart?_eq_some.mpr same).symm.trans here)
    rcases List.append_eq_append_iff.mp (stripStart?_eq_some.mp found) with
      ⟨more, isLonger, isRest⟩ | ⟨more, isShorter, -⟩
    · cases more with
      | nil => exact noPrefix (isLonger.symm ▸ by simp : text = written ++ [])
      | cons d more =>
        obtain ⟨c, chars, rfl⟩ := List.exists_cons_of_ne_nil some
        have inside : d ∈ written.tail := by simp [isLonger]
        exact undelimited d inside (delimited d (by simp [isRest]))
    · exact noPrefix isShorter

theorem findSome?_map {α β γ : Type} {f : α → Option β} {f' : α → Option γ} {g : β → γ}
    {items : List α} (same : ∀ a ∈ items, f' a = (f a).map g) :
    items.findSome? f' = (items.findSome? f).map g := by
  induction items with
  | nil => rfl
  | cons a items ih =>
    have later := ih fun b member => same b (List.mem_cons_of_mem a member)
    rw [List.findSome?_cons, List.findSome?_cons, same a List.mem_cons_self]
    cases f a with
    | none => exact later
    | some found => rfl

theorem symbolAt?_append {rest : List Char} (delimited : Delimited rest) (c : Char)
    (text : List Char) :
    symbolAt? (c :: (text ++ rest)) =
      (symbolAt? (c :: text)).map fun (s, left) => (s, left ++ rest) := by
  apply findSome?_map
  rintro ⟨s, written, shown⟩ member
  have undelimited : ∀ d ∈ written.toList.tail, d ∉ delimiters := by
    simpa using List.all_eq_true.mp symbols_undelimited _ member
  dsimp only
  rw [← List.cons_append, stripStart?_append delimited undelimited (List.cons_ne_nil c text),
    Option.map_map, Option.map_map]
  rfl

theorem symbolAt?_shorter {text rest : List Char} {s : Symbol}
    (found : symbolAt? text = some (s, rest)) : rest.length < text.length := by
  have visible : Symbol.table.all (fun (_, written, _) => !written.toList.isEmpty) = true := by decide
  obtain ⟨⟨s', written, shown⟩, member, strips⟩ := List.exists_of_findSome?_eq_some found
  obtain ⟨rest', strips, same⟩ := Option.map_eq_some_iff.mp strips
  cases same
  have some : written.toList ≠ [] := by simpa using List.all_eq_true.mp visible _ member
  have positive := List.length_pos_iff.mpr some
  rw [stripStart?_eq_some.mp strips, List.length_append]
  omega

/-- The character starts a numeral or a symbol, if anything. -/
def startsPlain (c : Char) : Bool :=
  !(c == ' ' || c == '\t' || c == '\r' || c == '#' || c == '\n' || c == '\\' || c == '"' || c == '\'' ||
    isNameStart c)

/-- The text that starts with a character starts with a lexeme, and this is left behind it. -/
inductive IsLexeme : Char → List Char → Option Token → List Char → Prop where
  | blank {c : Char} {text : List Char} (isBlank : c = ' ' ∨ c = '\t' ∨ c = '\r') :
    IsLexeme c text none text
  | comment {text : List Char} : IsLexeme '#' text none (text.dropWhile (· != '\n'))
  | lineEnd {text : List Char} :
    IsLexeme '\n' text (some (.newline (indentWidth (text.takeWhile isLineBlank))))
      (text.dropWhile isLineBlank)
  | joined {text : List Char} : IsLexeme '\\' ('\n' :: text) none text
  | joinedReturn {text : List Char} : IsLexeme '\\' ('\r' :: '\n' :: text) none text
  | str {quote : Char} {text chars left : List Char} (isQuote : quote = '"' ∨ quote = '\'')
    (closed : quotedSpan quote text = (chars, .closed left)) :
    IsLexeme quote text (some (.str (String.ofList (unescape escapeMeaning chars)))) left
  | name {c : Char} {text : List Char} (starts : isNameStart c = true) :
    IsLexeme c text (some (nameToken (c :: text.takeWhile isNameChar))) (text.dropWhile isNameChar)
  | numeral {c : Char} {text : List Char} {n : Numeral} {token : Token}
    (plain : startsPlain c = true) (found : numeral? (c :: text) = some n)
    (reads : numeralToken n = .ok token) :
    IsLexeme c text (some token) ((c :: text).drop n.chars.length)
  | symbol {c : Char} {text left : List Char} {s : Symbol} (plain : startsPlain c = true)
    (noNumeral : numeral? (c :: text) = none) (found : symbolAt? (c :: text) = some (s, left)) :
    IsLexeme c text (some (.symbol s)) left

variable {c : Char} {text left : List Char} {token : Option Token}

theorem IsLexeme.of_lexeme (found : lexeme c text = .ok (token, left)) :
    IsLexeme c text token left := by
  unfold lexeme at found
  by_cases isBlank : c = ' ' ∨ c = '\t' ∨ c = '\r'
  · rw [if_pos isBlank] at found
    cases found
    exact .blank isBlank
  rw [if_neg isBlank] at found
  by_cases isComment : c = '#'
  · rw [if_pos isComment] at found
    cases found
    exact isComment ▸ .comment
  rw [if_neg isComment] at found
  by_cases isLineEnd : c = '\n'
  · rw [if_pos isLineEnd] at found
    cases found
    exact isLineEnd ▸ .lineEnd
  rw [if_neg isLineEnd] at found
  by_cases isJoin : c = '\\'
  · rw [if_pos isJoin] at found
    subst isJoin
    split at found
    · cases found
      exact .joined
    · cases found
      exact .joinedReturn
    · cases found
  rw [if_neg isJoin] at found
  by_cases isQuote : c = '"' ∨ c = '\''
  · rw [if_pos isQuote] at found
    split at found
    · next closed =>
      cases found
      exact .str isQuote closed
    · cases found
  rw [if_neg isQuote] at found
  by_cases starts : isNameStart c = true
  · rw [if_pos starts] at found
    cases found
    exact .name starts
  rw [if_neg starts] at found
  have plain : startsPlain c = true := by
    simp_all [startsPlain]
  split at found
  · next n isNumeral =>
    obtain ⟨token, reads, same⟩ := map_eq_ok.mp found
    cases same
    exact .numeral plain isNumeral reads
  · next noNumeral =>
    split at found
    · next isSymbol =>
      cases found
      exact .symbol plain noNumeral isSymbol
    · cases found

theorem IsLexeme.lexeme_eq (isLexeme : IsLexeme c text token left) :
    lexeme c text = .ok (token, left) := by
  cases isLexeme with
  | blank isBlank => exact if_pos isBlank
  | comment => rfl
  | lineEnd => rfl
  | joined => rfl
  | joinedReturn => rfl
  | str isQuote closed => rcases isQuote with rfl | rfl <;> simp [lexeme, closed]
  | name starts =>
    have other {d : Char} (noName : isNameStart d = false) : c ≠ d := by
      rintro rfl
      rw [starts] at noName
      cases noName
    have noBlank : c ≠ ' ' ∧ c ≠ '\t' ∧ c ≠ '\r' := ⟨other rfl, other rfl, other rfl⟩
    have noQuote : c ≠ '"' ∧ c ≠ '\'' := ⟨other rfl, other rfl⟩
    have noComment : c ≠ '#' := other rfl
    have noLineEnd : c ≠ '\n' := other rfl
    have noJoin : c ≠ '\\' := other rfl
    simp [lexeme, *]
  | numeral plain found reads =>
    simp only [startsPlain, Bool.not_eq_true', Bool.or_eq_false_iff, beq_eq_false_iff_ne] at plain
    simp [lexeme, plain, found, reads, Except.map]
  | symbol plain noNumeral found =>
    simp only [startsPlain, Bool.not_eq_true', Bool.or_eq_false_iff, beq_eq_false_iff_ne] at plain
    simp [lexeme, plain, noNumeral, found]

theorem lexeme_eq_ok : lexeme c text = .ok (token, left) ↔ IsLexeme c text token left :=
  ⟨.of_lexeme, IsLexeme.lexeme_eq⟩

/-- No lexeme takes more than the text has. -/
theorem IsLexeme.shorter (isLexeme : IsLexeme c text token left) : left.length ≤ text.length := by
  cases isLexeme with
  | blank => exact Nat.le_refl _
  | comment | lineEnd | name => exact (List.dropWhile_sublist _).length_le
  | joined => exact Nat.le_succ _
  | joinedReturn => exact Nat.le_add_right _ 2
  | str isQuote closed => exact Nat.le_of_lt (quotedSpan_shorter closed)
  | numeral plain found =>
    have some := List.length_pos_iff.mpr (numeral?_chars found).1
    rw [List.length_drop, List.length_cons]
    omega
  | symbol plain noNumeral found => exact Nat.le_of_lt_succ (symbolAt?_shorter found)

/-- In front of a delimiter a text starts with the same lexeme, unless a comment or a blank line
goes on there. -/
theorem IsLexeme.append {rest : List Char} (isLexeme : IsLexeme c text token left)
    (delimited : Delimited rest) (ends : c = '#' ∨ c = '\n' → ∀ d, rest.head? = some d → d = '\n') :
    IsLexeme c (text ++ rest) token (left ++ rest) := by
  cases isLexeme with
  | blank isBlank => exact .blank isBlank
  | comment =>
    have stops : ∀ d, rest.head? = some d → (d != '\n') = false := by simpa using ends
    rw [← dropWhile_append_of_stops stops]
    exact .comment
  | lineEnd =>
    have stops : ∀ d, rest.head? = some d → isLineBlank d = false := by
      intro d first
      rw [ends (.inr rfl) d first]
      rfl
    rw [← dropWhile_append_of_stops stops, ← takeWhile_append_of_stops stops text]
    exact .lineEnd
  | joined => exact .joined
  | joinedReturn => exact .joinedReturn
  | str isQuote closed => exact .str isQuote (quotedSpan_append closed)
  | name starts =>
    have stops := delimited.stops (p := isNameChar) (by decide)
    rw [← dropWhile_append_of_stops stops, ← takeWhile_append_of_stops stops text]
    exact .name starts
  | numeral plain found reads =>
    have within := (numeral?_chars found).2
    rw [← List.drop_append_of_le_length within]
    refine .numeral plain ?_ reads
    rw [← List.cons_append, numeral?_append_of_delimited delimited, found]
  | symbol plain noNumeral found =>
    refine .symbol plain ?_ ?_
    · rw [← List.cons_append, numeral?_append_of_delimited delimited, noNumeral]
    · rw [symbolAt?_append delimited, found]
      rfl

/-! ### Tokens -/

/-- The tokens of a text in front of which a number of brackets is open. A line feed inside brackets
is no token. -/
inductive Lexed : Nat → List Char → List Token → Prop where
  | done : Lexed 0 [] []
  | skip {opened : Nat} {c : Char} {text left : List Char} {tokens : List Token}
    (first : IsLexeme c text none left) (later : Lexed opened left tokens) :
    Lexed opened (c :: text) tokens
  | inside {opened width : Nat} {c : Char} {text left : List Char} {tokens : List Token}
    (first : IsLexeme c text (some (.newline width)) left) (later : Lexed (opened + 1) left tokens) :
    Lexed (opened + 1) (c :: text) tokens
  | token {opened stillOpen : Nat} {c : Char} {text left : List Char} {token : Token}
    {tokens : List Token} (first : IsLexeme c text (some token) left)
    (brackets : openAfter opened token = .ok stillOpen)
    (kept : token.isNewline = true → opened = 0) (later : Lexed stillOpen left tokens) :
    Lexed opened (c :: text) (token :: tokens)

theorem Lexed.tokensFrom_eq {opened : Nat} {text : List Char} {tokens : List Token}
    (lexed : Lexed opened text tokens) (acc : List Token) {fuel : Nat} (enough : text.length ≤ fuel) :
    tokensFrom acc opened fuel text = .ok (acc.reverse ++ tokens) := by
  induction lexed generalizing acc fuel with
  | done => cases fuel <;> simp [tokensFrom]
  | skip first later ih =>
    have shorter := first.shorter
    match fuel, enough with
    | fuel + 1, enough =>
      rw [tokensFrom, first.lexeme_eq]
      exact ih acc (by simp at enough; omega)
  | @inside opened width c text left tokens first later ih =>
    have shorter := first.shorter
    match fuel, enough with
    | fuel + 1, enough =>
      rw [tokensFrom, first.lexeme_eq]
      exact ih acc (by simp at enough; omega)
  | @token opened stillOpen c text left token tokens first brackets kept later ih =>
    have shorter := first.shorter
    have isKept : ¬(token.isNewline = true ∧ opened ≠ 0) := fun ⟨isNewline, isOpen⟩ =>
      isOpen (kept isNewline)
    match fuel, enough with
    | fuel + 1, enough =>
      rw [tokensFrom, first.lexeme_eq]
      dsimp only
      rw [brackets]
      dsimp only
      rw [if_neg isKept, ih (token :: acc) (by simp at enough; omega)]
      simp

theorem lexed_of_tokensFrom {acc : List Token} {opened fuel : Nat} {text : List Char}
    {found : List Token} (given : tokensFrom acc opened fuel text = .ok found) :
    ∃ tokens, found = acc.reverse ++ tokens ∧ Lexed opened text tokens := by
  have atEnd {acc : List Token} {opened : Nat}
      (given : (if opened = 0 then Except.ok acc.reverse else .error SyntaxFault.unexpectedEnd) =
        .ok found) :
      ∃ tokens, found = acc.reverse ++ tokens ∧ Lexed opened [] tokens := by
    split at given
    · next closed =>
      cases given
      exact ⟨[], (List.append_nil _).symm, closed ▸ .done⟩
    · cases given
  induction fuel generalizing acc opened text with
  | zero =>
    cases text with
    | nil => exact atEnd given
    | cons c text => cases given
  | succ fuel ih =>
    cases text with
    | nil => exact atEnd given
    | cons c text =>
      rw [tokensFrom] at given
      split at given
      · cases given
      · next left isFirst =>
        obtain ⟨tokens, same, later⟩ := ih given
        exact ⟨tokens, same, .skip (.of_lexeme isFirst) later⟩
      · next token left isFirst =>
        have first := IsLexeme.of_lexeme isFirst
        split at given
        · cases given
        · next stillOpen brackets =>
          split at given
          · next dropped =>
            obtain ⟨tokens, same, later⟩ := ih given
            cases token with
            | newline width =>
              cases opened with
              | zero => exact absurd rfl dropped.2
              | succ opened => exact ⟨tokens, same, .inside first later⟩
            | keyword | symbol | int | float | str | name => cases dropped.1
          · next kept =>
            obtain ⟨tokens, same, later⟩ := ih given
            refine ⟨token :: tokens, by simp [same], .token first brackets ?_ later⟩
            intro isNewline
            by_contra isOpen
            exact kept ⟨isNewline, isOpen⟩

theorem tokens_eq_ok {source : String} {found : List Token} :
    tokens source = .ok found ↔ Lexed 0 source.toList found := by
  constructor
  · intro given
    obtain ⟨tokens, same, lexed⟩ := lexed_of_tokensFrom given
    exact same ▸ lexed
  · intro lexed
    exact lexed.tokensFrom_eq [] (Nat.le_refl _)

/-- A text and the lines after it. -/
theorem Lexed.append {opened : Nat} {text rest : List Char} {tokens more : List Token}
    (lexed : Lexed opened text tokens) (ends : ∀ d, rest.head? = some d → d = '\n')
    (later : Lexed 0 rest more) : Lexed opened (text ++ rest) (tokens ++ more) := by
  have delimited : Delimited rest := fun d first => by simp [ends d first, delimiters]
  induction lexed with
  | done => exact later
  | skip first _ ih => exact .skip (first.append delimited fun _ => ends) ih
  | inside first _ ih => exact .inside (first.append delimited fun _ => ends) ih
  | token first brackets kept _ ih =>
    exact .token (first.append delimited fun _ => ends) brackets kept ih

theorem Lexed.dropBlanks {opened : Nat} {line : List Char} {tokens : List Token}
    (lexed : Lexed opened line tokens) : Lexed opened (line.dropWhile isLineBlank) tokens := by
  induction line with
  | nil => exact lexed
  | cons c line ih =>
    by_cases blank : isLineBlank c = true
    · have here : lexeme c line = .ok (none, line) := by
        have isBlank : c = ' ' ∨ c = '\t' := by simpa [isLineBlank] using blank
        exact (IsLexeme.blank (isBlank.imp_right .inl)).lexeme_eq
      have later : Lexed opened line tokens := by
        cases lexed with
        | skip first later =>
          cases here.symm.trans first.lexeme_eq
          exact later
        | inside first | token first => cases here.symm.trans first.lexeme_eq
      rw [List.dropWhile_cons_of_pos blank]
      exact ih later
    · rw [List.dropWhile_cons_of_neg blank]
      exact lexed

/-- A further line: its line feed tells how far it is indented. -/
theorem Lexed.line {line : List Char} {tokens : List Token} (lexed : Lexed 0 line tokens) :
    Lexed 0 ('\n' :: line) (.newline (indentWidth (line.takeWhile isLineBlank)) :: tokens) :=
  .token .lineEnd rfl (fun _ => rfl) lexed.dropBlanks

end DocExamples.Script
