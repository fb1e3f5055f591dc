import DocExamples.Binary64
import DocExamples.Integer
/-!
Reading numbers: decimal numerals as doubles, whole numerals as sixty-four-bit integers.
-/
namespace DocExamples.Decimal

/-- The value of a digit; other characters count as zero. -/
def digitValue (c : Char) : Nat := if c.isDigit then c.toNat - '0'.toNat else 0

def ofDigits (digits : List Char) : Nat := digits.foldl (fun n c => 10 * n + digitValue c) 0

/-- The double nearest to `coefficient * 10 ^ exponent`. Far outside the range of doubles the
answer is known without the power. -/
def toFloat (negative : Bool) (coefficient : Nat) (exponent : Int) : Float :=
  let top := ((toString coefficient).length : Int) + exponent
  if coefficient = 0 || top < -330 then Binary64.withSign negative 0
  else if 310 < top then
    if negative then Binary64.negInfinity else Binary64.infinity
  else
    Binary64.ofRatio negative (coefficient * Nat.pow 10 exponent.toNat)
      (Nat.pow 10 (-exponent).toNat)

/-- A sign in front, if there is one. -/
def takeSign : List Char → Bool × List Char
  | '-' :: rest => (true, rest)
  | '+' :: rest => (false, rest)
  | text => (false, text)

/-- An exponent part, or nothing: `e` or `E`, a sign, digits. -/
def readExponent? : List Char → Option Int
  | [] => some 0
  | e :: rest =>
    if e = 'e' || e = 'E' then
      let (negative, digits) := takeSign rest
      if digits.isEmpty || !digits.all (·.isDigit) then none
      else some (if negative then -(ofDigits digits : Int) else ofDigits digits)
    else none

/-- Digits with at most one point among them and at least one digit, then an exponent part. -/
def readUnsigned? (negative : Bool) (text : List Char) : Option Float :=
  let whole := text.takeWhile (·.isDigit)
  let rest := text.dropWhile (·.isDigit)
  let (fraction, rest) := match rest with
    | '.' :: rest => (rest.takeWhile Char.isDigit, rest.dropWhile Char.isDigit)
    | _ => ([], rest)
  if whole.isEmpty && fraction.isEmpty then none
  else (readExponent? rest).map fun exponent =>
    toFloat negative (ofDigits (whole ++ fraction)) (exponent - fraction.length)

/-- A decimal numeral, `inf`, `infinity` or `nan` in any case, with an optional sign. -/
def readFloat? (text : List Char) : Option Float :=
  let (negative, body) := takeSign text
  let name := String.ofList (body.map Char.toLower)
  if name = "inf" || name = "infinity" then
    some (if negative then Binary64.negInfinity else Binary64.infinity)
  else if name = "nan" then some Binary64.nan
  else readUnsigned? negative body

/-- A whole numeral in the range of sixty-four bits, with an optional sign. -/
def readInt64? (text : List Char) : Option Int64 :=
  let (negative, digits) := takeSign text
  if digits.isEmpty || !digits.all (·.isDigit) then none
  else Integer.word? (if negative then -(ofDigits digits : Int) else ofDigits digits)

end DocExamples.Decimal
