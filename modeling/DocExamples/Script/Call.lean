import DocExamples.Script.Machine
import DocExamples.Script.Method
/-!
Calls of the built-in functions.
-/
namespace DocExamples.Script

def printCall (args : List Value) (kwargs : Keywords) : Eval Value := do
  checkKeywords "print" kwargs ["sep", "end"]
  let separator := (← textOption? kwargs "sep").getD " "
  let ending := (← textOption? kwargs "end").getD "\n"
  Machine.print (separator.intercalate (args.map Value.display))
  Machine.print ending
  return .none

def randomCall (args : List Value) (kwargs : Keywords) : Eval Value := do
  checkKeywords "random" kwargs []
  if !args.isEmpty then fail (.type (.wrongArgumentCount "random" 0 args.length))
  return .float (← Machine.draw)

/-- A random number, or an array of them with sizes as given. -/
def randCall (args : List Value) (kwargs : Keywords) : Eval Value := do
  checkKeywords "rand" kwargs []
  if args.isEmpty then return .float (← Machine.draw)
  let shape ← lift (args.mapM Value.toExtent)
  let size ← checkedSize shape
  return .tensor ⟨(← Machine.drawMany size).toArray, shape, .float⟩

/-- Restarts the random numbers from a seed, of which the sign does not count. -/
def seedCall (args : List Value) (kwargs : Keywords) : Eval Value := do
  let seed ← (← soleArgument "seed" args kwargs).toInt
  Machine.seed (UInt64.ofNat seed.toInt.natAbs)
  return .none

/-- The bytes of a working directory's path and of the slash after it. Working directories have a
name of thirteen bytes in `/tmp`. -/
def workingPathBytes : Nat := 19

/-- The text of a file in the working directory. -/
def readTextIn (directory : Directory) (path : String) : Except Fault String :=
  if Path.escapes path.toList then .error (.pathEscapes path)
  else
    match (directory.sourceBelow workingPathBytes).readText path.toList with
    | .ok text => .ok text
    | .error .notFound => .error (.fileNotFound path)
    | .error e => .error (.fileError e.message)

def readTextCall (args : List Value) (kwargs : Keywords) : Eval Value := do
  match ← soleArgument "read_text" args kwargs with
  | .str path => return .str (← readTextIn (← Machine.get).directory path)
  | v => fail (.type (.notAPath v.typeName))

/-- The result of calling a built-in function. -/
def Builtin.call (b : Builtin) (args : List Value) (kwargs : Keywords) : Eval Value :=
  let sole (f : Value → Except Fault Value) : Eval Value := do
    f (← soleArgument b.name args kwargs)
  match b with
  | .print => printCall args kwargs
  | .len => sole lengthOf
  | .sum => sumCall args kwargs
  | .abs => sole absolute
  | .round => roundCall args kwargs
  | .min => extremeCall .least args kwargs
  | .max => extremeCall .greatest args kwargs
  | .range => do
    checkKeywords "range" kwargs []
    rangeOf args
  | .sorted => sortedCall args kwargs
  | .repr => sole fun v => .ok (.str v.repr)
  | .str => strCall args kwargs
  | .int => intCall args kwargs
  | .float => floatCall args kwargs
  | .bool => boolCall args kwargs
  | .list => listCall args kwargs
  | .tuple => do return .tuple (← itemsCall "tuple" args kwargs)
  | .enumerate => enumerateCall args kwargs
  | .zip => zipCall args kwargs
  | .any => do return .bool ((← truthsCall "any" args kwargs).any id)
  | .all => do return .bool ((← truthsCall "all" args kwargs).all id)
  | .array => arrayCall args kwargs
  | .zeros => filled 0.0 "zeros" args kwargs
  | .ones => filled 1.0 "ones" args kwargs
  | .arange => do
    checkKeywords "arange" kwargs []
    arangeOf args
  | .linspace => do
    checkKeywords "linspace" kwargs ["num", "endpoint"]
    linspaceOf args kwargs
  | .sqrt => sole (onElements Float.sqrt)
  | .exp => sole (onElements Float.exp)
  | .log => sole (onElements Float.log)
  | .sin => sole (onElements Float.sin)
  | .cos => sole (onElements Float.cos)
  | .floor => sole (roundingOn Binary64.floor)
  | .ceil => sole (roundingOn Binary64.ceil)
  | .mean => meanCall args kwargs
  | .dot => dotCall args kwargs
  | .allclose => allcloseCall args kwargs
  | .random => randomCall args kwargs
  | .rand => randCall args kwargs
  | .seed => seedCall args kwargs
  | .readText => readTextCall args kwargs
  | .plot => pure .none

end DocExamples.Script
