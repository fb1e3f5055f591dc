/-!
Doubles through the exact numbers their bits stand for: what a double is, which double is nearest
to a fraction, and the roundings to whole numbers.
-/
namespace DocExamples.Binary64

/-- A finite double is `mantissa * 2 ^ exponent`, negated or not. -/
inductive Parts where
  | nan
  | infinite (negative : Bool)
  | finite (negative : Bool) (mantissa : Nat) (exponent : Int)
  deriving DecidableEq, Repr

/-- The exponent of the subnormal numbers and of the smallest normal ones. -/
def minExponent : Int := -1074

/-- The bit that a negative double has, and the others lack. -/
def signBit : Nat := 0x8000000000000000

/-- The leading bit of a normal mantissa, which is not stored. -/
def leadingBit : Nat := 0x10000000000000

def parts (x : Float) : Parts :=
  let bits := x.toBits
  let negative := bits >>> 63 == 1
  let field := (bits >>> 52 &&& 0x7ff).toNat
  let fraction := (bits &&& 0xfffffffffffff).toNat
  if field == 2047 then
    if fraction == 0 then .infinite negative else .nan
  else if field == 0 then .finite negative fraction minExponent
  else .finite negative (fraction + leadingBit) ((field : Int) - 1075)

/-- The quotient rounded to a natural number, a half to the even neighbour. -/
def roundDiv (num den : Nat) : Nat :=
  let quotient := num / den
  let twice := 2 * (num % den)
  if twice < den then quotient
  else if den < twice then quotient + 1
  else quotient + quotient % 2

/-- The exponent at which the quotient, a nonzero one, has fifty-three binary digits before the
point, but never one below that of the subnormal numbers. -/
def exponentFor (num den : Nat) : Int :=
  let guess : Int := (num.log2 : Int) - den.log2 - 53
  let scaled := num <<< (-guess).toNat
  let bound := den <<< guess.toNat <<< 53
  max (if bound ≤ scaled then guess + 1 else guess) minExponent

/-- The bits of the double nearest to `num / den`, ties to even, infinity beyond the largest. The
mantissa is added to the exponent's field, so that a mantissa that rounds up to the next power of
two carries into the field. -/
def nearestBits (num den : Nat) : Nat :=
  if num = 0 then 0
  else
    let q := exponentFor num den
    let mantissa := roundDiv (num <<< (-q).toNat) (den <<< q.toNat)
    min ((q - minExponent).toNat * leadingBit + mantissa) (2047 * leadingBit)

def withSign (negative : Bool) (bits : Nat) : Float :=
  Float.ofBits (UInt64.ofNat (if negative then bits + signBit else bits))

/-- The double nearest to `num / den`, negated or not. -/
def ofRatio (negative : Bool) (num den : Nat) : Float := withSign negative (nearestBits num den)

def ofNat (n : Nat) : Float := ofRatio false n 1

/-- The double nearest to an integer. -/
def ofInt (i : Int) : Float := ofRatio (i < 0) i.natAbs 1

def ofBool (b : Bool) : Float := if b then 1.0 else 0.0

def nan : Float := Float.ofBits 0x7ff8000000000000
def infinity : Float := Float.ofBits 0x7ff0000000000000
def negInfinity : Float := Float.ofBits 0xfff0000000000000

/-- Rounds the magnitude of a double to a whole number with `round negative mantissa unit`, where
`mantissa / unit` is the magnitude. Whole numbers and the special values stay as they are, and the
sign stays also on a zero. -/
def roundWith (round : Bool → Nat → Nat → Nat) (x : Float) : Float :=
  match parts x with
  | .finite negative mantissa exponent =>
    let unit := 1 <<< (-exponent).toNat
    if mantissa % unit = 0 then x
    else withSign negative (nearestBits (round negative mantissa unit) 1)
  | _ => x

def trunc : Float → Float := roundWith fun _ mantissa unit => mantissa / unit

def floor : Float → Float :=
  roundWith fun negative mantissa unit =>
    if negative then (mantissa + unit - 1) / unit else mantissa / unit

def ceil : Float → Float :=
  roundWith fun negative mantissa unit =>
    if negative then mantissa / unit else (mantissa + unit - 1) / unit

/-- To the nearest whole number, a half to the even one. -/
def roundEven : Float → Float := roundWith fun _ mantissa unit => roundDiv mantissa unit

/-- The integer part of a double, clamped to sixty-four bits; zero for what is not a number. -/
def toInt64 (x : Float) : Int64 :=
  match parts x with
  | .nan => 0
  | .infinite negative => if negative then Int64.minValue else Int64.maxValue
  | .finite negative mantissa exponent =>
    let magnitude := mantissa <<< exponent.toNat >>> (-exponent).toNat
    let whole : Int := if negative then -(magnitude : Int) else magnitude
    Int64.ofIntClamp whole

/-- The remainder of the division whose quotient is cut toward zero; it is exact and has the sign
of the dividend. -/
def remainder (x y : Float) : Float :=
  match parts x, parts y with
  | .finite negative m e, .finite _ n f =>
    if n = 0 then nan
    else
      let unit := min e f
      let rest := m <<< (e - unit).toNat % n <<< (f - unit).toNat
      ofRatio negative (rest <<< unit.toNat) (1 <<< (-unit).toNat)
  | .finite .., .infinite _ => x
  | _, _ => nan

/-- The product of the powers that the binary digits of `n` select, by repeated squaring. -/
def powerLoop (base acc : Float) (n : Nat) : Nat → Float
  | 0 => acc
  | fuel + 1 =>
    let acc := if n % 2 = 1 then acc * base else acc
    if n / 2 = 0 then acc else powerLoop (base * base) acc (n / 2) fuel

/-- A whole power; one with a negative exponent is the reciprocal of the positive power. -/
def power (base : Float) (n : Int) : Float :=
  let magnitude := powerLoop base 1.0 n.natAbs (n.natAbs + 1)
  if n < 0 then 1.0 / magnitude else magnitude

/-- The sum from left to right. A sum of no numbers is the zero that leaves every number as it
is, `-0.0`. -/
def sum (xs : List Float) : Float := xs.foldl (· + ·) (-0.0)

end DocExamples.Binary64
