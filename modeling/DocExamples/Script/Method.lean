import DocExamples.Script.Edit
import DocExamples.Script.Functions
import DocExamples.Script.Library
import DocExamples.Text.Case
/-!
Attributes of values, and what their methods compute. A mutating method of a list only gives its
result here: the list that it changes is not bound to a name.
-/
namespace DocExamples.Script

/-- The value that a module holds under a name. -/
def moduleValue? (owner name : String) : Option Value :=
  (moduleItem? owner name).map fun
    | .constant bits => .float (Float.ofBits bits)
    | .module inner => .module inner
    | .function b => .builtin b

def tensorMethods : List String :=
  ["sum", "mean", "max", "min", "reshape", "tolist", "round", "copy", "flatten"]

def listMethods : List String :=
  ["append", "extend", "pop", "insert", "reverse", "index", "count", "copy"]

def textMethods : List String :=
  ["upper", "lower", "strip", "split", "join", "replace", "startswith", "endswith"]

def dictMethods : List String := ["keys", "values", "items", "get"]

def tensorAttribute (t : Tensor) (name : String) : Except Fault Value :=
  match name with
  | "shape" => .ok (.tuple (t.shape.map Value.ofNat))
  | "ndim" => .ok (.ofNat t.dimensions)
  | "size" => .ok (.ofNat t.size)
  | "dtype" => .ok (.str t.kind.name)
  | "T" => .ok (.tensor t.transpose)
  | name =>
    if tensorMethods.contains name then .ok (.method (.tensor t) name)
    else .error (.noAttribute (Value.typeName (.tensor t)) name)

def attributeOf (value : Value) (name : String) : Except Fault Value :=
  let among (methods : List String) : Except Fault Value :=
    if methods.contains name then .ok (.method value name)
    else .error (.noAttribute value.typeName name)
  match value with
  | .module owner => (moduleValue? owner name).elim (.error (.noModuleAttribute owner name)) .ok
  | .tensor t => tensorAttribute t name
  | .list _ => among listMethods
  | .str _ => among textMethods
  | .dict _ => among dictMethods
  | .exception _ message => if name = "args" then .ok (.tuple [.str message]) else among []
  | _ => among []

/-! ### Lists -/

def indexIn (items : Array Value) (v : Value) : Except Fault Value :=
  match items.findIdx? (·.equals v) with
  | some i => .ok (.ofNat i)
  | none => .error (.value (.notInList v.repr))

def listMethod (items : Array Value) (name : String) (args : List Value) : Except Fault Value :=
  match name with
  | "index" => do indexIn items (← oneOf name args)
  | "count" => do
    let v ← oneOf name args
    return .ofNat (items.countP (·.equals v))
  | "copy" => .ok (.list items)
  | name =>
    match Mutator.ofName? name with
    | some m => do return (← m.edit items args).2
    | none => .error (.noAttribute "list" name)

/-! ### Texts -/

def splitText (text : String) (args : List Value) : Except Fault Value := do
  let parts ← match args with
    | v :: _ => do pure (Text.pieces (← v.toText).toList text.toList)
    | [] => pure (Text.words text.toList)
  return .ofList (parts.map fun part => .str (String.ofList part))

def textMethod (text : String) (name : String) (args : List Value) : Except Fault Value :=
  match name with
  | "upper" => .ok (.str (Text.upper text))
  | "lower" => .ok (.str (Text.lower text))
  | "strip" => .ok (.str (String.ofList (Text.trim text.toList)))
  | "split" => splitText text args
  | "join" => do
    let parts ← (← (← oneOf name args).iterate).mapM Value.toText
    return .str (text.intercalate parts)
  | "replace" => do
    let (old, new) ← twoOf name args
    let old ← old.toText
    let new ← new.toText
    return .str (String.ofList (Text.replace old.toList new.toList text.toList))
  | "startswith" => do
    let start ← (← oneOf name args).toText
    return .bool (start.toList.isPrefixOf text.toList)
  | "endswith" => do
    let stop ← (← oneOf name args).toText
    return .bool (stop.toList.isSuffixOf text.toList)
  | name => .error (.noAttribute "str" name)

/-! ### Dictionaries and arrays -/

def dictMethod (entries : List (Value × Value)) (name : String) (args : List Value) :
    Except Fault Value :=
  match name with
  | "keys" => .ok (.ofList (entries.map (·.1)))
  | "values" => .ok (.ofList (entries.map (·.2)))
  | "items" => .ok (.ofList (entries.map fun (k, v) => .tuple [k, v]))
  | "get" =>
    match args with
    | [] => .error (.type (.wrongArgumentCount name 1 0))
    | key :: rest => .ok ((underKey? entries key).getD (rest.headD .none))
  | name => .error (.noAttribute "dict" name)

/-- The shape that `reshape` is given: one sequence of sizes, or sizes. -/
def reshapeArgument : List Value → Except Fault (List Nat)
  | [.tuple items] | [.list ⟨items⟩] => items.mapM Value.toExtent
  | args => args.mapM Value.toExtent

def tensorMethod (t : Tensor) (name : String) (args : List Value) (kwargs : Keywords) :
    Except Fault Value :=
  let all := Value.tensor t :: args
  match name with
  | "sum" => sumCall all kwargs
  | "mean" => meanCall all kwargs
  | "max" => extremeCall .greatest all kwargs
  | "min" => extremeCall .least all kwargs
  | "round" => roundCall all kwargs
  | "tolist" => .ok t.toList
  | "copy" => .ok (.tensor t)
  | "flatten" => do return .tensor (← t.reshape [t.size])
  | "reshape" => do return .tensor (← t.reshape (← reshapeArgument args))
  | name => .error (.noAttribute (Value.typeName (.tensor t)) name)

def callMethod (receiver : Value) (name : String) (args : List Value) (kwargs : Keywords) :
    Except Fault Value :=
  match receiver with
  | .tensor t => tensorMethod t name args kwargs
  | .list items => listMethod items name args
  | .str text => textMethod text name args
  | .dict entries => dictMethod entries name args
  | v => .error (.noAttribute v.typeName name)

end DocExamples.Script
