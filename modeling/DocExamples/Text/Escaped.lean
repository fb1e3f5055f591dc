import DocExamples.Decimal.Layout
import DocExamples.Text.Printing
/-!
Texts in double quotes with escapes, as syntax errors show them.
-/
namespace DocExamples.Text

def hexDigits (n : Nat) : List Char := Nat.toDigits 16 n

/-- An escape by code point, as in `\u\x7b301\x7d`. -/
def codePointEscape (c : Char) : List Char :=
  ['\\', 'u', '\x7b'] ++ hexDigits c.toNat ++ ['\x7d']

def escapeChar (c : Char) : List Char :=
  match c with
  | '\x00' => ['\\', '0']
  | '\t' => ['\\', 't']
  | '\r' => ['\\', 'r']
  | '\n' => ['\\', 'n']
  | '"' => ['\\', '"']
  | '\\' => ['\\', '\\']
  | c => if isShown c then [c] else codePointEscape c

def quoted (text : List Char) : List Char := '"' :: text.flatMap escapeChar ++ ['"']

/-- The notation of doubles in syntax errors. -/
def shownFloat : Decimal.FloatFormat where
  leastPlace := some (-3)
  greatestPlace := some 16
  pointZero := true
  exponent := ⟨false, 1⟩
  nan := "NaN"

end DocExamples.Text
