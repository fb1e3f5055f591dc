/-!
The lexical forms that source text and printed output share: decimal numerals, quoted strings,
names. Each function splits a form off the front of a text.
-/
namespace DocExamples.Text

def isNameStart (c : Char) : Bool := c.isAlpha || c == '_'

def isNameChar (c : Char) : Bool := c.isAlphanum || c == '_'

/-- The exponent part at the front of a text: `e` or `E`, a sign, at least one digit. -/
def exponentSpan (text : List Char) : List Char :=
  match text with
  | [] => []
  | e :: rest =>
    if e = 'e' ∨ e = 'E' then
      let sign := match rest with
        | '+' :: _ => ['+']
        | '-' :: _ => ['-']
        | _ => []
      let digits := (rest.drop sign.length).takeWhile (·.isDigit)
      if digits.isEmpty then [] else e :: sign ++ digits
    else []

/-- The point and the digits after it at the front of a text; `leading` tells whether digits stand
before the point, and without them there has to be one after it. -/
def fractionSpan (leading : Bool) (text : List Char) : List Char :=
  match text with
  | '.' :: rest =>
    let digits := rest.takeWhile (·.isDigit)
    if leading || !digits.isEmpty then '.' :: digits else []
  | _ => []

/-- A numeral: its characters, and whether it is a whole one. -/
structure Numeral where
  chars : List Char
  whole : Bool
  deriving DecidableEq, Repr

/-- The longest numeral at the front of a text, without a sign. -/
def numeral? (text : List Char) : Option Numeral :=
  let digits := text.takeWhile (·.isDigit)
  let fraction := fractionSpan (!digits.isEmpty) (text.drop digits.length)
  let mantissa := digits ++ fraction
  if mantissa.isEmpty then none
  else
    let exponent := exponentSpan (text.drop mantissa.length)
    some ⟨mantissa ++ exponent, fraction.isEmpty && exponent.isEmpty⟩

/-- How a quoted string ends: with the quote, or at a character that it cannot hold. -/
inductive QuotedEnd where
  | closed (rest : List Char)
  | unclosed
  deriving DecidableEq, Repr

/-- The characters after an opening quote: those that belong to the string, a backslash together
with the character that it escapes, and how the string ends. A line feed ends it unclosed, and so
does a backslash that escapes none. -/
def quotedSpan (quote : Char) : List Char → List Char × QuotedEnd
  | [] => ([], .unclosed)
  | c :: rest =>
    if c = quote then ([], .closed rest)
    else if c = '\n' then ([], .unclosed)
    else if c = '\\' then
      match rest with
      | [] => ([], .unclosed)
      | d :: rest =>
        if d = '\n' then ([], .unclosed)
        else
          let (chars, stop) := quotedSpan quote rest
          (c :: d :: chars, stop)
    else
      let (chars, stop) := quotedSpan quote rest
      (c :: chars, stop)

/-- Replaces each escape by what `meaning` says, and by the escaped character itself if it says
nothing. -/
def unescape (meaning : Char → Option Char) : List Char → List Char
  | [] => []
  | '\\' :: c :: rest => (meaning c).getD c :: unescape meaning rest
  | c :: rest => c :: unescape meaning rest

theorem numeral?_nil : numeral? [] = none := rfl

end DocExamples.Text
