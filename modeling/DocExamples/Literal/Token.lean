import DocExamples.Text.Numeral
/-!
The tokens of printed output.
-/
namespace DocExamples.Literal

inductive Token where
  | leftBracket
  | rightBracket
  | leftParen
  | rightParen
  | leftBrace
  | rightBrace
  | comma
  | colon
  | equals
  | ellipsis
  | masked
  | minus
  | plus
  /-- A numeral with a point or an exponent. -/
  | float (chars : List Char)
  | int (chars : List Char)
  /-- A string, without its quotes and with its escapes as written. -/
  | str (chars : List Char)
  /-- A name, or several with points between them. -/
  | name (chars : List Char)
  deriving DecidableEq, Repr

namespace Token

/-- The characters of a dotted name. A point belongs to it if a name follows; `start` tells that
the next character has to start a name. -/
def nameSpan (start : Bool) : List Char → List Char
  | [] => []
  | c :: rest =>
    if start then if Text.isNameStart c then c :: nameSpan false rest else []
    else if Text.isNameChar c then c :: nameSpan false rest
    else if c = '.' ∧ rest.head?.any Text.isNameStart then c :: nameSpan true rest
    else []

def symbol? : Char → Option Token
  | '[' => some .leftBracket
  | ']' => some .rightBracket
  | '(' => some .leftParen
  | ')' => some .rightParen
  | '{' => some .leftBrace
  | '}' => some .rightBrace
  | ',' => some .comma
  | ':' => some .colon
  | '=' => some .equals
  | '-' => some .minus
  | '+' => some .plus
  | _ => none

/-- The token at the front of a text and what follows it. -/
def first? (text : List Char) : Option (Token × List Char) :=
  match Text.numeral? text with
  | some n =>
    some (if n.whole then .int n.chars else .float n.chars, text.drop n.chars.length)
  | none =>
    match text with
    | '.' :: '.' :: '.' :: rest => some (.ellipsis, rest)
    | '-' :: '-' :: rest => some (.masked, rest)
    | c :: rest =>
      if c = '"' ∨ c = '\'' then
        match Text.quotedSpan c rest with
        | (chars, .closed rest) => some (.str chars, rest)
        | (_, .unclosed) => none
      else if Text.isNameStart c then
        let chars := nameSpan true text
        some (.name chars, text.drop chars.length)
      else (symbol? c).map (·, rest)
    | [] => none

def isSkipped (c : Char) : Bool := c == ' ' || c == '\t' || c == '\r' || c == '\n'

/-- Tokens of a text that has at most `fuel` characters. -/
def scanWith : Nat → List Char → Option (List Token)
  | _, [] => some []
  | 0, _ :: _ => none
  | fuel + 1, c :: rest =>
    if isSkipped c then scanWith fuel rest
    else do
      let (token, rest) ← first? (c :: rest)
      let tokens ← scanWith fuel rest
      return token :: tokens

/-- The tokens of a text, if all of it consists of tokens and blanks. -/
def scan (text : List Char) : Option (List Token) := scanWith text.length text

end Token

end DocExamples.Literal
