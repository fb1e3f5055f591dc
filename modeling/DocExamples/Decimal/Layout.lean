import DocExamples.Decimal.Shortest
/-!
How a decimal is laid out as text: its digits around the point, or a mantissa and an exponent.
-/
namespace DocExamples.Decimal

def digitChars (n : Nat) : List Char := (toString n).toList

def dropTrailingZeros (digits : List Char) : List Char :=
  (digits.reverse.dropWhile (· == '0')).reverse

/-- The digits without the zeros at their end, and the place of the point counted from their
start. -/
def digitsAndPoint (d : Decimal) : List Char × Int :=
  let digits := digitChars d.coefficient
  (dropTrailingZeros digits, digits.length + d.exponent)

/-- The digits before and after the point. -/
def positional (digits : List Char) (point : Int) : List Char × List Char :=
  if point ≤ 0 then (['0'], List.replicate (-point).toNat '0' ++ digits)
  else
    (digits.take point.toNat ++ List.replicate (point.toNat - digits.length) '0',
      digits.drop point.toNat)

structure ExponentStyle where
  plusSign : Bool
  leastDigits : Nat
  deriving DecidableEq, Repr

def ExponentStyle.render (style : ExponentStyle) (exponent : Int) : List Char :=
  let digits := digitChars exponent.natAbs
  let padded := List.replicate (style.leastDigits - digits.length) '0' ++ digits
  if exponent < 0 then '-' :: padded else if style.plusSign then '+' :: padded else padded

/-- One digit, the point and the others if there are any, and the exponent. -/
def scientific (style : ExponentStyle) (digits : List Char) (exponent : Int) : List Char :=
  let mantissa := match digits with
    | [] => ['0']
    | [d] => [d]
    | d :: rest => d :: '.' :: rest
  mantissa ++ 'e' :: style.render exponent

/-- `mantissa * 2 ^ exponent` with a fixed number of places after the point. -/
def fixed (places : Nat) (mantissa : Nat) (exponent : Int) : List Char × List Char :=
  let whole := (nearest mantissa exponent (-(places : Int))).coefficient
  let digits := digitChars whole
  let padded := List.replicate (places + 1 - digits.length) '0' ++ digits
  (padded.take (padded.length - places), padded.drop (padded.length - places))

/-- `mantissa * 2 ^ exponent` as a digit, `places` digits after the point and an exponent. -/
def fixedScientific (places : Nat) (mantissa : Nat) (exponent : Int) : List Char × Int :=
  if mantissa = 0 then (List.replicate (places + 1) '0', 0)
  else
    let d := significant (places + 1) mantissa exponent
    let digits := digitChars d.coefficient
    (digits.take (places + 1), digits.length + d.exponent - 1)

/-- Decisions of a text form of doubles. -/
structure FloatFormat where
  /-- Magnitudes below `10 ^ k` for the least `k` without an exponent are written with one. -/
  leastPlace : Option Int
  /-- Magnitudes from `10 ^ k` on are written with an exponent. -/
  greatestPlace : Option Int
  /-- Whole numbers keep a point and a zero. -/
  pointZero : Bool
  exponent : ExponentStyle
  nan : String
  deriving DecidableEq, Repr

/-- The shortest digits of a double, laid out as the format says. -/
def FloatFormat.render (format : FloatFormat) (x : Float) : String :=
  match Binary64.parts x with
  | .nan => format.nan
  | .infinite negative => if negative then "-inf" else "inf"
  | .finite negative mantissa exponent =>
    let (digits, point) :=
      if mantissa = 0 then ([], 1) else digitsAndPoint (shortest mantissa exponent)
    let tooSmall := format.leastPlace.any (point < ·)
    let tooLarge := format.greatestPlace.any (· < point)
    let body :=
      if tooSmall || tooLarge then scientific format.exponent digits (point - 1)
      else
        let (whole, fraction) := positional digits point
        if !fraction.isEmpty then whole ++ '.' :: fraction
        else if format.pointZero then whole ++ ['.', '0'] else whole
    String.ofList (if negative then '-' :: body else body)

end DocExamples.Decimal
