import DocExamples.Text.Escaped
/-!
The tokens of example source.
-/
namespace DocExamples.Script

inductive Keyword where
  | forKw | inKw | whileKw | ifKw | elifKw | elseKw | defKw | returnKw | raiseKw | assertKw
  | importKw | fromKw | asKw | delKw | passKw | breakKw | continueKw | notKw | andKw | orKw | isKw
  | trueKw | falseKw | noneKw
  deriving DecidableEq, Repr

/-- Every keyword as it is written and as it is shown in errors. -/
def Keyword.table : List (Keyword × String × String) :=
  [(.forKw, "for", "For"), (.inKw, "in", "In"), (.whileKw, "while", "While"), (.ifKw, "if", "If"),
    (.elifKw, "elif", "Elif"), (.elseKw, "else", "Else"), (.defKw, "def", "Def"),
    (.returnKw, "return", "Return"), (.raiseKw, "raise", "Raise"),
    (.assertKw, "assert", "Assert"), (.importKw, "import", "Import"), (.fromKw, "from", "From"),
    (.asKw, "as", "As"), (.delKw, "del", "Del"), (.passKw, "pass", "Pass"),
    (.breakKw, "break", "Break"), (.continueKw, "continue", "Continue"), (.notKw, "not", "Not"),
    (.andKw, "and", "And"), (.orKw, "or", "Or"), (.isKw, "is", "Is"), (.trueKw, "True", "True"),
    (.falseKw, "False", "False"), (.noneKw, "None", "None")]

def Keyword.ofName? (name : String) : Option Keyword :=
  (Keyword.table.find? (·.2.1 == name)).map (·.1)

inductive Symbol where
  | plus | minus | star | starStar | slash | slashSlash | percent | atSign
  | equalEqual | notEqual | less | lessEqual | greater | greaterEqual
  | equal | plusEqual | minusEqual | starEqual | slashEqual
  | leftParen | rightParen | leftBracket | rightBracket | leftBrace | rightBrace
  | comma | colon | semicolon | dot
  deriving DecidableEq, Repr

/-- Every symbol as it is written and as it is shown in errors. A symbol stands before those that
its text begins with. -/
def Symbol.table : List (Symbol × String × String) :=
  [(.starStar, "**", "StarStar"), (.slashSlash, "//", "SlashSlash"), (.equalEqual, "==", "EqEq"),
    (.notEqual, "!=", "NotEq"), (.lessEqual, "<=", "LtEq"), (.greaterEqual, ">=", "GtEq"),
    (.plusEqual, "+=", "PlusEq"), (.minusEqual, "-=", "MinusEq"), (.starEqual, "*=", "StarEq"),
    (.slashEqual, "/=", "SlashEq"), (.plus, "+", "Plus"), (.minus, "-", "Minus"),
    (.star, "*", "Star"), (.slash, "/", "Slash"), (.percent, "%", "Percent"), (.atSign, "@", "At"),
    (.less, "<", "Lt"), (.greater, ">", "Gt"), (.equal, "=", "Eq"), (.leftParen, "(", "LParen"),
    (.rightParen, ")", "RParen"), (.leftBracket, "[", "LBracket"),
    (.rightBracket, "]", "RBracket"), (.leftBrace, "\x7b", "LBrace"),
    (.rightBrace, "\x7d", "RBrace"), (.comma, ",", "Comma"), (.colon, ":", "Colon"),
    (.semicolon, ";", "Semicolon"), (.dot, ".", "Dot")]

inductive Token where
  /-- A line feed, with the width of the blanks that start the next line. -/
  | newline (indent : Nat)
  | keyword (k : Keyword)
  | symbol (s : Symbol)
  | int (value : Int64)
  | float (value : Float)
  | str (text : String)
  | name (text : String)

def Token.describe : Token → String
  | .newline indent => "Newline(" ++ toString indent ++ ")"
  | .keyword k => ((Keyword.table.lookup k).map (·.2)).getD ""
  | .symbol s => ((Symbol.table.lookup s).map (·.2)).getD ""
  | .int value => "Int(" ++ toString value.toInt ++ ")"
  | .float value => "Float(" ++ Text.shownFloat.render value ++ ")"
  | .str text => "Str(" ++ String.ofList (Text.quoted text.toList) ++ ")"
  | .name text => "Ident(" ++ String.ofList (Text.quoted text.toList) ++ ")"

/-- Why source is not a program. -/
inductive SyntaxFault where
  /-- These characters are no token. -/
  | unreadable (slice : String)
  | unmatchedBracket
  | unexpectedEnd
  | expected (what : String) (found : Option Token)
  | misplaced (token : Token)
  | tooNested
  | unexpectedIndent
  | missingBlock
  | notAssignable
  | positionalAfterKeyword

def SyntaxFault.message : SyntaxFault → String
  | .unreadable slice => "invalid syntax at `" ++ slice ++ "`"
  | .unmatchedBracket => "unmatched closing bracket"
  | .unexpectedEnd => "unexpected EOF while parsing"
  | .expected what (some token) =>
    "invalid syntax: expected " ++ what ++ ", found " ++ token.describe
  | .expected what none => "unexpected EOF while parsing: expected " ++ what
  | .misplaced token => "invalid syntax at " ++ token.describe
  | .tooNested => "too many nested expressions"
  | .unexpectedIndent => "unexpected indent"
  | .missingBlock => "expected an indented block"
  | .notAssignable => "cannot assign to expression"
  | .positionalAfterKeyword => "positional argument follows keyword argument"

end DocExamples.Script
