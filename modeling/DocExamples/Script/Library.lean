/-!
The functions that come with the language, and the modules they are found in.
-/
namespace DocExamples.Script

inductive Builtin where
  | print | len | sum | abs | round | min | max | range | sorted | repr | str | int | float | bool
  | list | tuple | enumerate | zip | any | all | array | zeros | ones | arange | linspace | sqrt
  | exp | log | sin | cos | floor | ceil | mean | dot | allclose | random | rand | seed | readText
  /-- Any plotting function. -/
  | plot
  deriving DecidableEq, Repr

namespace Builtin

def name : Builtin → String
  | .print => "print"
  | .len => "len"
  | .sum => "sum"
  | .abs => "abs"
  | .round => "round"
  | .min => "min"
  | .max => "max"
  | .range => "range"
  | .sorted => "sorted"
  | .repr => "repr"
  | .str => "str"
  | .int => "int"
  | .float => "float"
  | .bool => "bool"
  | .list => "list"
  | .tuple => "tuple"
  | .enumerate => "enumerate"
  | .zip => "zip"
  | .any => "any"
  | .all => "all"
  | .array => "array"
  | .zeros => "zeros"
  | .ones => "ones"
  | .arange => "arange"
  | .linspace => "linspace"
  | .sqrt => "sqrt"
  | .exp => "exp"
  | .log => "log"
  | .sin => "sin"
  | .cos => "cos"
  | .floor => "floor"
  | .ceil => "ceil"
  | .mean => "mean"
  | .dot => "dot"
  | .allclose => "allclose"
  | .random => "random"
  | .rand => "rand"
  | .seed => "seed"
  | .readText => "read_text"
  | .plot => "pyplot"

/-- The functions that need no import. -/
def globals : List Builtin :=
  [.print, .len, .sum, .abs, .round, .min, .max, .range, .sorted, .repr, .str, .int, .float, .bool,
    .list, .tuple, .enumerate, .zip, .any, .all, .readText]

def ofGlobalName? (name : String) : Option Builtin := globals.find? (·.name == name)

end Builtin

def moduleNames : List String :=
  ["math", "random", "numpy", "numpy.random", "matplotlib", "matplotlib.pyplot"]

def isModule (name : String) : Bool := moduleNames.contains name

/-- What a module holds under a name. -/
inductive ModuleItem where
  | constant (bits : UInt64)
  | module (name : String)
  | function (b : Builtin)
  deriving DecidableEq, Repr

def constants : List (String × UInt64) :=
  [("pi", 0x400921fb54442d18), ("e", 0x4005bf0a8b145769), ("nan", 0x7ff8000000000000),
    ("inf", 0x7ff0000000000000)]

def elementary : List (String × Builtin) :=
  [("sqrt", .sqrt), ("exp", .exp), ("log", .log), ("sin", .sin), ("cos", .cos),
    ("floor", .floor), ("ceil", .ceil)]

def arrayFunctions : List (String × Builtin) :=
  [("array", .array), ("zeros", .zeros), ("ones", .ones), ("arange", .arange),
    ("linspace", .linspace), ("mean", .mean), ("sum", .sum), ("abs", .abs), ("round", .round),
    ("max", .max), ("min", .min), ("dot", .dot), ("allclose", .allclose), ("float64", .float),
    ("int64", .int)]

def randomFunctions : List (String × Builtin) := [("seed", .seed), ("random", .random)]

/-- Every function of the plotting module exists. -/
def moduleItem? (module name : String) : Option ModuleItem :=
  let constant := (constants.lookup name).map ModuleItem.constant
  let among (functions : List (String × Builtin)) := (functions.lookup name).map ModuleItem.function
  match module with
  | "math" => constant <|> among elementary
  | "numpy" =>
    constant <|> among elementary <|> among arrayFunctions <|>
      (if name = "random" then some (.module "numpy.random") else none)
  | "random" => among randomFunctions
  | "numpy.random" => among randomFunctions <|> among [("rand", .rand)]
  | "matplotlib" => if name = "pyplot" then some (.module "matplotlib.pyplot") else none
  | "matplotlib.pyplot" => some (.function .plot)
  | _ => none

end DocExamples.Script
