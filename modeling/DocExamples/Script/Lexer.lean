import DocExamples.Decimal.Reading
import DocExamples.Script.Token
import DocExamples.Text.Numeral
import DocExamples.Text.Pieces
/-!
Splitting source into tokens. Blanks, comments and escaped line ends stand between tokens; line
ends inside brackets do too.
-/
namespace DocExamples.Script

/-- A tab is as wide as eight spaces. -/
def indentWidth (blanks : List Char) : Nat :=
  blanks.foldl (fun width c => width + if c = '\t' then 8 else 1) 0

def isLineBlank (c : Char) : Bool := c == ' ' || c == '\t'

/-- Escapes other than these stand for the character itself. -/
def escapeMeaning : Char → Option Char
  | 'n' => some '\n'
  | 't' => some '\t'
  | '0' => some '\x00'
  | _ => none

/-- The characters that a token takes up, and the token; none for what stands between tokens. -/
abbrev Lexeme := Option Token × List Char

def numeralToken (n : Text.Numeral) : Except SyntaxFault Token :=
  let unreadable := Except.error (.unreadable (String.ofList n.chars))
  if n.whole then (Decimal.readInt64? n.chars).elim unreadable fun value => .ok (.int value)
  else (Decimal.readFloat? n.chars).elim unreadable fun value => .ok (.float value)

def nameToken (chars : List Char) : Token :=
  match Keyword.ofName? (String.ofList chars) with
  | some k => .keyword k
  | none => .name (String.ofList chars)

def symbolAt? (text : List Char) : Option (Symbol × List Char) :=
  Symbol.table.findSome? fun (s, written, _) =>
    (Text.stripStart? written.toList text).map (s, ·)

/-- What the text that starts with `c` starts with, and the rest of the text. -/
def lexeme (c : Char) (rest : List Char) : Except SyntaxFault Lexeme :=
  if c = ' ' ∨ c = '\t' ∨ c = '\r' then .ok (none, rest)
  else if c = '#' then .ok (none, rest.dropWhile (· != '\n'))
  else if c = '\n' then
    .ok (some (.newline (indentWidth (rest.takeWhile isLineBlank))), rest.dropWhile isLineBlank)
  else if c = '\\' then
    match rest with
    | '\n' :: rest => .ok (none, rest)
    | '\r' :: '\n' :: rest => .ok (none, rest)
    | _ => .error (.unreadable "\\")
  else if c = '"' ∨ c = '\'' then
    match Text.quotedSpan c rest with
    | (chars, .closed rest) =>
      .ok (some (.str (String.ofList (Text.unescape escapeMeaning chars))), rest)
    | (chars, .unclosed) => .error (.unreadable (String.ofList (c :: chars)))
  else if Text.isNameStart c then
    let chars := c :: rest.takeWhile Text.isNameChar
    .ok (some (nameToken chars), rest.dropWhile Text.isNameChar)
  else
    match Text.numeral? (c :: rest) with
    | some n => (numeralToken n).map fun token => (some token, (c :: rest).drop n.chars.length)
    | none =>
      match symbolAt? (c :: rest) with
      | some (s, rest) => .ok (some (.symbol s), rest)
      | none => .error (.unreadable (String.singleton c))

/-- How many brackets are open after a token, if none is closed that was not open. -/
def openAfter (opened : Nat) : Token → Except SyntaxFault Nat
  | .symbol .leftParen | .symbol .leftBracket | .symbol .leftBrace => .ok (opened + 1)
  | .symbol .rightParen | .symbol .rightBracket | .symbol .rightBrace =>
    match opened with
    | 0 => .error .unmatchedBracket
    | n + 1 => .ok n
  | _ => .ok opened

def Token.isNewline : Token → Bool
  | .newline _ => true
  | _ => false

/-- The tokens of a text of at most `fuel` characters, `opened` brackets being open. The tokens so
far are in reverse order. -/
def tokensFrom (acc : List Token) (opened : Nat) : Nat → List Char → Except SyntaxFault (List Token)
  | _, [] => if opened = 0 then .ok acc.reverse else .error .unexpectedEnd
  | 0, _ :: _ => .error .unexpectedEnd
  | fuel + 1, c :: rest =>
    match lexeme c rest with
    | .error e => .error e
    | .ok (none, rest) => tokensFrom acc opened fuel rest
    | .ok (some token, rest) =>
      match openAfter opened token with
      | .error e => .error e
      | .ok stillOpen =>
        if token.isNewline ∧ opened ≠ 0 then tokensFrom acc opened fuel rest
        else tokensFrom (token :: acc) stillOpen fuel rest

def tokens (source : String) : Except SyntaxFault (List Token) :=
  tokensFrom [] 0 source.toList.length source.toList

end DocExamples.Script
