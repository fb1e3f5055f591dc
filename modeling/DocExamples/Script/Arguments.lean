import DocExamples.Script.Elements
import DocExamples.Script.ValueText
/-!
The arguments of built-in functions: how many there are, which keywords are known, and what is
expected of one.
-/
namespace DocExamples.Script

abbrev Keywords := List (String × Value)

def Keywords.get? (kwargs : Keywords) (name : String) : Option Value :=
  (kwargs.find? (·.1 == name)).map (·.2)

/-- Refuses the first keyword that is not among the allowed ones. -/
def checkKeywords (function : String) (kwargs : Keywords) (allowed : List String) :
    Except Fault Unit :=
  match kwargs.find? fun (k, _) => !allowed.contains k with
  | some (k, _) => .error (.type (.invalidKeyword function k))
  | none => .ok ()

def oneOf (function : String) : List Value → Except Fault Value
  | [v] => .ok v
  | args => .error (.type (.wrongArgumentCount function 1 args.length))

def twoOf (function : String) : List Value → Except Fault (Value × Value)
  | [a, b] => .ok (a, b)
  | args => .error (.type (.wrongArgumentCount function 2 args.length))

/-- The only argument, and no keywords. -/
def soleArgument (function : String) (args : List Value) (kwargs : Keywords) :
    Except Fault Value := do
  checkKeywords function kwargs []
  oneOf function args

/-- At most one argument, and no keywords. -/
def optionalArgument (function : String) (args : List Value) (kwargs : Keywords) :
    Except Fault (Option Value) := do
  checkKeywords function kwargs []
  if 1 < args.length then throw (.type (.wrongArgumentCount function 1 args.length))
  return args.head?

/-- A text given by keyword; `None` counts as not given. -/
def textOption? (kwargs : Keywords) (name : String) : Except Fault (Option String) :=
  match kwargs.get? name with
  | none | some .none => .ok none
  | some (.str s) => .ok (some s)
  | some v => .error (.type (.notTextOption name v.typeName))

namespace Value

def toInt (v : Value) : Except Fault Int64 :=
  v.asInt?.elim (.error (.type (.notAnInteger v.typeName))) .ok

def toFloat (v : Value) : Except Fault Float :=
  v.asFloat?.elim (.error (.type (.notAReal v.typeName))) .ok

def toText : Value → Except Fault String
  | .str s => .ok s
  | v => .error (.type (.notText v.typeName))

/-- A size along an axis. -/
def toExtent (v : Value) : Except Fault Nat := do
  let i ← v.toInt
  if i < 0 then throw (.value .negativeDimension)
  return i.toInt.toNat

/-- A shape: one size or a sequence of sizes. -/
def toShape : Value → Except Fault (List Nat)
  | .tuple items | .list ⟨items⟩ => items.mapM toExtent
  | v => do return [← v.toExtent]

/-- A kind of elements, by the function that converts to it or by name. -/
def toKind : Value → Except Fault ElementKind
  | .builtin .float => .ok .float
  | .builtin .int => .ok .int
  | .builtin .bool => .ok .bool
  | .str "float" | .str "float64" => .ok .float
  | .str "int" | .str "int64" => .ok .int
  | .str "bool" => .ok .bool
  | .str name => .error (.type (.unknownElementType name))
  | v => .error (.type (.unknownElementType v.repr))

end Value

end DocExamples.Script
