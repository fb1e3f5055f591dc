import DocExamples.Decimal.Reading
import DocExamples.Script.Arguments
import DocExamples.Script.Arithmetic
import DocExamples.Text.Blank
/-!
Conversions of values to numbers, rounding, and functions applied to every element.
-/
namespace DocExamples.Script

/-- The whole number that a double is when cut toward zero. -/
def intOfFloat (x : Float) : Except Fault Value :=
  if x.isNaN then .error (.value .nanToInt)
  else if !x.isFinite then .error .infinityToInt
  else .ok (.int (Binary64.toInt64 x))

def intOfText (text : String) : Except Fault Value :=
  match Decimal.readInt64? (Text.trim text.toList) with
  | some i => .ok (.int i)
  | none => .error (.value (.badIntText (quotedText text)))

def toInteger (v : Value) : Except Fault Value :=
  let wrong := Except.error (.type (.noIntConversion v.typeName))
  match v with
  | .int _ | .bool _ => do return .int (← v.toInt)
  | .float x => intOfFloat x
  | .str s => intOfText s
  | .tensor t =>
    if t.size = 1 then
      match t.kind with
      | .float => intOfFloat (t.get 0)
      | .int => .ok (.int (Binary64.toInt64 (t.get 0)))
      | .bool => .ok (.int (if t.get 0 != 0.0 then 1 else 0))
    else wrong
  | _ => wrong

def toReal (v : Value) : Except Fault Value :=
  match v with
  | .str s =>
    (Decimal.readFloat? (Text.trim s.toList)).elim (.error (.value (.badFloatText (quotedText s))))
      fun x => .ok (.float x)
  | v =>
    v.asFloat?.elim (.error (.type (.noFloatConversion v.typeName))) fun x => .ok (.float x)

def absolute : Value → Except Fault Value
  | .int i => exactInt "abs" i.toInt.natAbs
  | .bool b => .ok (.int (if b then 1 else 0))
  | .float x => .ok (.float x.abs)
  | .tensor t => .ok (.tensor (t.map t.kind Float.abs))
  | v => .error (.type (.noAbsolute v.typeName))

/-- The most places before or after the point that rounding tells apart. -/
def maxPlaces : Int := 300

/-- Rounds to a number of places after the point. -/
def roundTo (places : Int) (x : Float) : Float :=
  let scale := Binary64.power 10.0 (max (-maxPlaces) (min maxPlaces places))
  Binary64.roundEven (x * scale) / scale

/-- A double rounded to a whole number. -/
def roundToWhole (x : Float) : Except Fault Value :=
  if x.isNaN then .error (.value (.roundsNan (floatFormat.render x)))
  else if !x.isFinite then .error (.roundsInfinity (floatFormat.render x))
  else intOfFloat (Binary64.roundEven x)

def rounded (v : Value) (places : Option Int64) : Except Fault Value :=
  match v, places with
  | .int _, _ | .bool _, _ => do return .int (← v.toInt)
  | .float x, none => roundToWhole x
  | .float x, some p => .ok (.float (roundTo p.toInt x))
  | .tensor t, p => .ok (.tensor (t.map t.kind (roundTo (p.elim 0 Int64.toInt))))
  | _, _ => .error (.type (.noRounding v.typeName))

def isArrayLike : Value → Bool
  | .tensor _ | .list _ | .tuple _ => true
  | _ => false

/-- A function of doubles on a number, or on every element of what an array can be made from. -/
def onElements (f : Float → Float) (v : Value) : Except Fault Value := do
  if isArrayLike v then return .tensor ((← Tensor.ofValue v).map .float f)
  else return .float (f (← v.toFloat))

/-- A rounding function: a number becomes a whole number, elements of arrays stay doubles. -/
def roundingOn (f : Float → Float) (v : Value) : Except Fault Value := do
  if isArrayLike v then onElements f v else intOfFloat (f (← v.toFloat))

end DocExamples.Script
