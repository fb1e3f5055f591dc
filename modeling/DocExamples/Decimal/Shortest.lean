import DocExamples.Binary64
/-!
Decimal digits of a double: the fewest that read back to it, or as many as asked for. All in exact
arithmetic on `mantissa * 2 ^ exponent`.
-/
namespace DocExamples

/-- The number `coefficient * 10 ^ exponent`. -/
structure Decimal where
  coefficient : Nat
  exponent : Int
  deriving DecidableEq, Repr

namespace Decimal

/-- The fraction `n * 2 ^ u / 10 ^ e` as a numerator, for the denominator `gridDen e u`. -/
def gridNum (e u : Int) (n : Nat) : Nat := (n * Nat.pow 10 (-e).toNat) <<< u.toNat

def gridDen (e u : Int) : Nat := Nat.pow 10 e.toNat <<< (-u).toNat

/-- The place of the leading digit: `10 ^ (place - 1) ≤ mantissa * 2 ^ exponent < 10 ^ place`. The
digits are counted in the whole part of the number times `10 ^ lift`, which is not less than the
mantissa, since `8 < 10` and `10 ^ 3 < 2 ^ 10`. -/
def place (mantissa : Nat) (exponent : Int) : Int :=
  let lift : Int := if exponent < 0 then (2 - exponent) / 3 else -(3 * exponent / 10)
  let whole := gridNum (-lift) exponent mantissa / gridDen (-lift) exponent
  ((toString whole).length : Int) - lift

/-- The numbers that round to a double, in quarters of its last binary place: the double, the ends
of the interval, and whether the ends belong to it. -/
structure RoundingInterval where
  unit : Int
  low : Nat
  value : Nat
  high : Nat
  closed : Bool
  deriving DecidableEq, Repr

/-- A power of two is closer to its lower neighbour than to its upper one, except at the least
exponent. An even mantissa takes the ends of its interval. -/
def roundingInterval (mantissa : Nat) (exponent : Int) : RoundingInterval where
  unit := exponent - 2
  low := 4 * mantissa -
    (if mantissa = Binary64.leadingBit ∧ exponent ≠ Binary64.minExponent then 1 else 2)
  value := 4 * mantissa
  high := 4 * mantissa + 2
  closed := mantissa % 2 == 0

/-- The multiple of `10 ^ e` in the interval that is nearest to its double, the greater of two
equally near ones. -/
def RoundingInterval.onGrid? (i : RoundingInterval) (e : Int) : Option Nat :=
  let den := gridDen e i.unit
  let num := gridNum e i.unit i.value
  let below := num / den
  let admits (a b : Nat) : Bool := a < b || (i.closed && a == b)
  let lower := admits (gridNum e i.unit i.low) (below * den)
  let upper := admits ((below + 1) * den) (gridNum e i.unit i.high)
  if lower && upper then
    some (if den ≤ 2 * (num % den) then below + 1 else below)
  else if lower then some below
  else if upper then some (below + 1)
  else none

/-- The decimal with the fewest digits that rounds to `mantissa * 2 ^ exponent`. Seventeen digits
are always enough. -/
def shortest (mantissa : Nat) (exponent : Int) : Decimal :=
  let interval := roundingInterval mantissa exponent
  let top := place mantissa exponent
  let found := (List.range 17).findSome? fun (n : Nat) =>
    let e : Int := top - (n + 1)
    (interval.onGrid? e).map (⟨·, e⟩)
  found.getD ⟨0, 0⟩

/-- The multiple of `10 ^ e` nearest to `mantissa * 2 ^ exponent`, a half to the even one. -/
def nearest (mantissa : Nat) (exponent e : Int) : Decimal :=
  ⟨Binary64.roundDiv (gridNum e exponent mantissa) (gridDen e exponent), e⟩

/-- `digits` significant digits, a half to the even neighbour. -/
def significant (digits : Nat) (mantissa : Nat) (exponent : Int) : Decimal :=
  nearest mantissa exponent (place mantissa exponent - digits)

end Decimal

end DocExamples
