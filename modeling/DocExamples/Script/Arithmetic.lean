import DocExamples.Integer
import DocExamples.Script.Tree
import DocExamples.Script.Value
/-!
Arithmetic on numbers, and concatenation and repetition of sequences. Whole numbers are exact:
what does not fit sixty-four bits is an overflow.
-/
namespace DocExamples.Script

/-- The value of an exact result, if it fits. -/
def exactInt (operation : String) (i : Int) : Except Fault Value :=
  (Integer.word? i).elim (.error (.integerOverflow operation)) fun n => .ok (.int n)

/-- The power of a number of magnitude at most one depends on the parity of the exponent only. -/
def smallPower (x : Int) (n : Nat) : Int := if n = 0 then 1 else if n % 2 = 0 then x * x else x

/-- A power with a natural exponent. Numbers beyond one in magnitude are out of range from the
sixty-fourth power on, whatever the number; all are with exponents of more than 32 bits. -/
def intPower (x : Int) (n : Nat) : Except Fault Value :=
  let overflow := Except.error (.integerOverflow "exponentiation")
  if UInt32.size ≤ n then overflow
  else if x.natAbs ≤ 1 then exactInt "exponentiation" (smallPower x n)
  else if 63 < n then overflow
  else exactInt "exponentiation" (Int.pow x n)

/-- The remainder with the sign of the divisor. -/
def floorRemainder (x y : Float) : Float :=
  let rest := Binary64.remainder x y
  if rest != 0.0 && (rest < 0.0) != (y < 0.0) then rest + y else rest

def unsupported (op : BinaryOp) (left right : String) : Fault :=
  .type (.unsupportedOperands op.symbol left right)

def floatBinary (op : BinaryOp) (x y : Float) : Except Fault Value :=
  match op with
  | .add => .ok (.float (x + y))
  | .sub => .ok (.float (x - y))
  | .mul => .ok (.float (x * y))
  | .div => if y == 0.0 then .error (.floatDivisionByZero "division") else .ok (.float (x / y))
  | .floorDiv =>
    if y == 0.0 then .error (.floatDivisionByZero "floor division")
    else .ok (.float (Binary64.floor (x / y)))
  | .mod =>
    if y == 0.0 then .error (.floatDivisionByZero "modulo") else .ok (.float (floorRemainder x y))
  | .pow => .ok (.float (x.pow y))
  | .matMul => .error (unsupported op "float" "float")

/-- The least number has no quotient and no remainder by `-1`. -/
def divisionOverflows (x y : Int) : Bool := x == Integer.least && y == -1

def intBinary (op : BinaryOp) (a b : Int64) : Except Fault Value :=
  let x := a.toInt
  let y := b.toInt
  match op with
  | .add => exactInt "addition" (x + y)
  | .sub => exactInt "subtraction" (x - y)
  | .mul => exactInt "multiplication" (x * y)
  | .div =>
    if y = 0 then .error .divisionByZero
    else .ok (.float (Binary64.ofInt x / Binary64.ofInt y))
  | .floorDiv =>
    if y = 0 then .error .moduloByZero
    else if divisionOverflows x y then .error (.integerOverflow "floor division")
    else exactInt "floor division" (x.fdiv y)
  | .mod =>
    if y = 0 then .error .moduloByZero
    else if divisionOverflows x y then .error (.integerOverflow "remainder")
    else exactInt "remainder" (x.fmod y)
  | .pow =>
    if 0 ≤ y then intPower x y.toNat
    else floatBinary .pow (Binary64.ofInt x) (Binary64.ofInt y)
  | .matMul => .error (unsupported op "int" "int")

/-- Refuses a sequence that would be too long. -/
def boundedLength (what : String) (length : Nat) : Except Fault Unit :=
  if length ≤ maxSequenceLength then .ok () else .error (.tooLarge what)

/-- A text `n` times, put in front of which is `acc`. -/
def appendTimes (acc text : String) : Nat → String
  | 0 => acc
  | n + 1 => appendTimes (acc ++ text) text n

def repeatItems (items : List Value) (count : Nat) : List Value :=
  if items.isEmpty then [] else (List.replicate count items).flatten

/-- A sequence repeated; a negative count repeats it no times. None for what is no sequence. -/
def repeated? (count : Int64) : Value → Option (Except Fault Value)
  | .str s => some do
    let n := count.toInt.toNat
    boundedLength "str" (s.utf8ByteSize * n)
    return .str (if s.isEmpty then "" else appendTimes "" s n)
  | .list items => some do
    let n := count.toInt.toNat
    boundedLength "list" (items.size * n)
    return .ofList (repeatItems items.toList n)
  | .tuple items => some do
    let n := count.toInt.toNat
    boundedLength "tuple" (items.length * n)
    return .tuple (repeatItems items n)
  | _ => none

/-- A sequence times a whole number, in either order. -/
def repetition? (left right : Value) : Option (Except Fault Value) :=
  (right.asInt?.bind fun count => repeated? count left) <|>
    left.asInt?.bind fun count => repeated? count right

def sequenceBinary (op : BinaryOp) (left right : Value) : Except Fault Value :=
  let wrong := Except.error (unsupported op left.typeName right.typeName)
  match op, left, right with
  | .add, .str a, .str b => do
    boundedLength "str" (a.utf8ByteSize + b.utf8ByteSize)
    return .str (a ++ b)
  | .add, .list a, .list b => do
    boundedLength "list" (a.size + b.size)
    return .list (a ++ b)
  | .add, .tuple a, .tuple b => do
    boundedLength "tuple" (a.length + b.length)
    return .tuple (a ++ b)
  | .mul, left, right => (repetition? left right).getD wrong
  | _, _, _ => wrong

/-- A binary operator on values that are not arrays: exact on whole numbers, else on doubles, else
on sequences. -/
def scalarBinary (op : BinaryOp) (left right : Value) : Except Fault Value :=
  match left.asInt?, right.asInt? with
  | some a, some b => intBinary op a b
  | _, _ =>
    match left.asNumber?, right.asNumber? with
    | some x, some y => floatBinary op x y
    | _, _ => sequenceBinary op left right

end DocExamples.Script
