import DocExamples.Script.Conversion
import DocExamples.Script.Ranges
import DocExamples.Script.Reduction
/-!
The built-in functions that only compute: each on its arguments, first those given by position.
-/
namespace DocExamples.Script

def sumCall (args : List Value) (kwargs : Keywords) : Except Fault Value := do
  checkKeywords "sum" kwargs ["axis"]
  let v ← oneOf "sum" args
  match kwargs.get? "axis" with
  | none | some .none => sumOf v
  | some axis => sumAlong v axis

def meanCall (args : List Value) (kwargs : Keywords) : Except Fault Value := do
  meanOf (← soleArgument "mean" args kwargs)

def extremeCall (e : Extreme) (args : List Value) (kwargs : Keywords) : Except Fault Value := do
  checkKeywords e.name kwargs []
  extremeOf e args

/-- The number of places given to `round`, by position or by either keyword. -/
def placesOf (args : List Value) (kwargs : Keywords) : Except Fault (Option Int64) :=
  match args[1]? <|> kwargs.get? "decimals" <|> kwargs.get? "ndigits" with
  | none | some .none => .ok none
  | some v => some <$> v.toInt

def roundCall (args : List Value) (kwargs : Keywords) : Except Fault Value := do
  checkKeywords "round" kwargs ["decimals", "ndigits"]
  let places ← placesOf args kwargs
  match args with
  | [] => throw (.type (.wrongArgumentCount "round" 1 0))
  | v :: _ => rounded v places

def sortedCall (args : List Value) (kwargs : Keywords) : Except Fault Value := do
  checkKeywords "sorted" kwargs ["reverse"]
  let items ← sortValues (← (← oneOf "sorted" args).iterate)
  let backward ← match kwargs.get? "reverse" with
    | some v => v.truth
    | none => pure false
  return .ofList (if backward then items.reverse else items)

def itemsCall (function : String) (args : List Value) (kwargs : Keywords) :
    Except Fault (List Value) := do
  match ← optionalArgument function args kwargs with
  | some v => v.iterate
  | none => return []

def listCall (args : List Value) (kwargs : Keywords) : Except Fault Value := do
  match ← optionalArgument "list" args kwargs with
  | some (.tensor t) => return if t.shape.isEmpty then .list #[] else t.toList
  | some v => return .ofList (← v.iterate)
  | none => return .list #[]

def numbered (start : Int64) (items : List Value) : List Value :=
  items.mapIdx fun i v => .tuple [.int (start + Int64.ofNat i), v]

def enumerateCall (args : List Value) (kwargs : Keywords) : Except Fault Value := do
  checkKeywords "enumerate" kwargs ["start"]
  let start ← match kwargs.get? "start" with
    | some v => v.toInt
    | none => pure 0
  return .ofList (numbered start (← (← oneOf "enumerate" args).iterate))

/-- The first `n` rows of columns that are at least as long. -/
def rowsOf (columns : List (Array Value)) (n : Nat) : Array Value :=
  (Array.range n).map fun i => .tuple (columns.filterMap (·[i]?))

def zipCall (args : List Value) (kwargs : Keywords) : Except Fault Value := do
  checkKeywords "zip" kwargs []
  let columns := (← args.mapM Value.iterate).map List.toArray
  return .list (rowsOf columns ((columns.map Array.size).min?.getD 0))

/-- The truth values of all items; every one of them is taken before they are combined. -/
def truthsCall (function : String) (args : List Value) (kwargs : Keywords) :
    Except Fault (List Bool) := do
  (← (← soleArgument function args kwargs).flatItems).mapM Value.truth

def arrayCall (args : List Value) (kwargs : Keywords) : Except Fault Value := do
  checkKeywords "array" kwargs ["dtype"]
  let t ← Tensor.ofValue (← oneOf "array" args)
  match kwargs.get? "dtype" with
  | some v => return .tensor (t.cast (← v.toKind))
  | none => return .tensor t

def dotCall (args : List Value) (kwargs : Keywords) : Except Fault Value := do
  checkKeywords "dot" kwargs []
  let (a, b) ← twoOf "dot" args
  let isVector : Value → Bool
    | .tensor _ | .list _ => true
    | _ => false
  if isVector a && isVector b then binary .matMul a b else binary .mul a b

def toleranceOption (kwargs : Keywords) (name : String) (standard : Float) :
    Except Fault Float :=
  match kwargs.get? name with
  | some v => v.toFloat
  | none => .ok standard

/-- Whether the elements of two arrays agree up to an absolute and a relative tolerance. -/
def allcloseCall (args : List Value) (kwargs : Keywords) : Except Fault Value := do
  checkKeywords "allclose" kwargs ["rtol", "atol"]
  let rtol ← toleranceOption kwargs "rtol" (Decimal.toFloat false 1 (-5))
  let atol ← toleranceOption kwargs "atol" (Decimal.toFloat false 1 (-8))
  let (a, b) ← twoOf "allclose" args
  let x ← Tensor.ofValue a
  let y ← Tensor.ofValue b
  let close ← broadcast x y .bool fun x y =>
    Binary64.ofBool ((x - y).abs ≤ atol + rtol * y.abs)
  return .bool (close.data.all (· != 0.0))

def boolCall (args : List Value) (kwargs : Keywords) : Except Fault Value := do
  match ← optionalArgument "bool" args kwargs with
  | some v => return .bool (← v.truth)
  | none => return .bool false

def intCall (args : List Value) (kwargs : Keywords) : Except Fault Value := do
  match ← optionalArgument "int" args kwargs with
  | some v => toInteger v
  | none => return .int 0

def floatCall (args : List Value) (kwargs : Keywords) : Except Fault Value := do
  match ← optionalArgument "float" args kwargs with
  | some v => toReal v
  | none => return .float 0.0

def strCall (args : List Value) (kwargs : Keywords) : Except Fault Value := do
  return .str ((← optionalArgument "str" args kwargs).elim "" Value.display)

end DocExamples.Script
