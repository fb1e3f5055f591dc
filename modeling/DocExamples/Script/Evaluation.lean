import DocExamples.Script.Call
/-!
Evaluation of expressions and statements. Both recurse on the tree; what a call does is a
parameter, and the calls that are still allowed to nest bound the recursion through it.
-/
namespace DocExamples.Script

abbrev Caller := Value → List Value → Keywords → Eval Value

/-- Refuses values that nest deeper than `limit`. -/
def withinNesting (limit : Nat) (v : Value) : Eval Unit :=
  if v.nestsDeeperThan limit then fail .nestingTooDeep else pure ()

/-- Names that denote a kind of error unless they are bound. -/
def isErrorName (name : String) : Bool :=
  name == "Exception" ||
    ["Error", "Warning", "Exception"].any fun ending => ending.toList.isSuffixOf name.toList

def lookupName (name : String) : Eval Value := do
  match ← Machine.lookup name with
  | some v => return v
  | none =>
    match Builtin.ofGlobalName? name with
    | some b => return .builtin b
    | none => if isErrorName name then return .exceptionType name else fail (.undefinedName name)

/-! ### Stores -/

inductive ItemChange where
  | set (v : Value)
  | delete

/-- What the change does to a container. A stored value lies one level deeper than its
container. -/
def ItemChange.edit (change : ItemChange) (container : Value) (s : Subscript) : Eval Edit :=
  match change with
  | .set v => do
    withinNesting (maxValueNesting - 1) v
    storeEdit container s v
  | .delete => deleteEdit container s

/-- Changes an item of the value of a name. -/
def storeAt (name : String) (s : Subscript) (change : ItemChange) : Eval Unit := do
  match ← Machine.lookup name with
  | some v => Machine.edit name (← change.edit v s)
  | none => fail (.undefinedName name)

/-- Binds a name to a value of bounded nesting. -/
def bindName (name : String) (v : Value) : Eval Unit := do
  withinNesting maxValueNesting v
  Machine.define .program name v

/-- The items of a value, as many as there are targets. -/
def unpackItems (count : Nat) (v : Value) : Except Fault (List Value) :=
  match v.iterate with
  | .error _ => .error (.type (.notUnpackable v.typeName))
  | .ok items =>
    if items.length < count then .error (.value (.tooFewToUnpack count items.length))
    else if count < items.length then .error (.value (.tooManyToUnpack count))
    else .ok items

def sliceBound : Value → Except Fault (Option Int64)
  | .none => .ok none
  | v => v.asInt?.elim (.error (.type .badSliceBound)) fun i => .ok (some i)

/-- Gives names back the values that they had, or none. -/
def restoreNames : List (String × Option Value) → Eval Unit
  | [] => pure ()
  | (name, some v) :: rest => do
    Machine.define .program name v
    restoreNames rest
  | (name, none) :: rest => do
    let _ ← Machine.unbind name
    restoreNames rest

/-- Runs a computation and then gives the names back their values, whether it fails or not. -/
def keepingNames {α : Type} (names : List String) (x : Eval α) : Eval α := do
  let scopes := (← Machine.get).scopes
  let saved := names.map fun name => (name, scopes.lookup name)
  x.endingWith (restoreNames saved)

/-- Adds the results for the items that have one. -/
def collectFor (visit : Value → Eval (Option Value)) (found : Array Value) :
    List Value → Eval (Array Value)
  | [] => pure found
  | item :: rest => do
    match ← visit item with
    | some v => collectFor visit (found.push v) rest
    | none => collectFor visit found rest

/-! ### Expressions -/

def boundList? (name : String) : Eval (Option (Array Value)) := do
  match ← Machine.lookup name with
  | some (.list items) => return some items
  | _ => return none

/-- A mutating method called on a name that is bound to a list changes the list in its place. -/
def mutateBound? (callee : Expr) (args : List Value) : Eval (Option Value) := do
  match callee with
  | .attr (.name name) method =>
    match Mutator.ofName? method, ← boundList? name with
    | some m, some items =>
      args.forM (withinNesting (maxValueNesting - 1))
      let (edit, result) ← m.edit items args
      Machine.edit name (.list edit)
      return some result
    | _, _ => return none
  | _ => return none

-- What a subscript or a store goes to may be the whole expression, and counts for one more.
mutual

def evalExpr (call : Caller) : Expr → Eval Value
  | .int i => pure (.int i)
  | .float x => pure (.float x)
  | .str s => pure (.str s)
  | .bool b => pure (.bool b)
  | .none => pure .none
  | .name name => lookupName name
  | .list items => .ofList <$> evalAll call items
  | .tuple items => .tuple <$> evalAll call items
  | .dict entries => .dict <$> evalEntries call [] entries
  | .listComp element target source condition => do
    let items ← (← evalExpr call source).iterate
    let visit (item : Value) : Eval (Option Value) := do
      assign call target item
      if ← evalCondition call condition then return some (← evalExpr call element)
      else return none
    .list <$> keepingNames target.names (collectFor visit #[] items)
  | .unary op operand => do unary op (← evalExpr call operand)
  | .binary op left right => do
    let a ← evalExpr call left
    let b ← evalExpr call right
    binary op a b
  | .compare op left right => do
    let a ← evalExpr call left
    let b ← evalExpr call right
    compareValues op a b
  | .and left right => do
    let a ← evalExpr call left
    if ← a.truth then evalExpr call right else return a
  | .or left right => do
    let a ← evalExpr call left
    if ← a.truth then return a else evalExpr call right
  | .ifElse condition yes no => do
    if ← (← evalExpr call condition).truth then evalExpr call yes else evalExpr call no
  | .call callee args kwargs => do
    let args ← evalAll call args
    let kwargs ← evalKeywords call kwargs
    match ← mutateBound? callee args with
    | some v => return v
    | none => call (← evalExpr call callee) args kwargs
  | .attr object name => do attributeOf (← evalExpr call object) name
  | .index container index => do
    let c ← evalExpr call container
    let s ← evalSubscript call index
    getItem c s
  | .slice .. => fail .straySlice
termination_by e => 2 * sizeOf e

def evalAll (call : Caller) : List Expr → Eval (List Value)
  | [] => pure []
  | e :: rest => do
    let v ← evalExpr call e
    return v :: (← evalAll call rest)
termination_by es => 2 * sizeOf es

/-- Adds the entries of a dictionary display to those before them. -/
def evalEntries (call : Caller) (before : List (Value × Value)) :
    List (Expr × Expr) → Eval (List (Value × Value))
  | [] => pure before
  | (key, value) :: rest => do
    let k ← evalExpr call key
    let v ← evalExpr call value
    evalEntries call (putEntry k v before) rest
termination_by entries => 2 * sizeOf entries

def evalKeywords (call : Caller) : List (String × Expr) → Eval Keywords
  | [] => pure []
  | (name, e) :: rest => do
    let v ← evalExpr call e
    return (name, v) :: (← evalKeywords call rest)
termination_by kwargs => 2 * sizeOf kwargs

/-- Whether the condition of a comprehension holds; a missing one does. -/
def evalCondition (call : Caller) : Option Expr → Eval Bool
  | none => pure true
  | some e => do (← evalExpr call e).truth
termination_by condition => 2 * sizeOf condition

def evalBound (call : Caller) : Option Expr → Eval (Option Int64)
  | none => pure none
  | some e => do sliceBound (← evalExpr call e)
termination_by bound => 2 * sizeOf bound

def evalSubscript (call : Caller) : Expr → Eval Subscript
  | .slice start stop step => do
    let a ← evalBound call start
    let b ← evalBound call stop
    let c ← evalBound call step
    return .slice a b c
  | .tuple items => .multi <$> evalSubscripts call items
  | e => .item <$> evalExpr call e
termination_by e => 2 * sizeOf e + 1

def evalSubscripts (call : Caller) : List Expr → Eval (List Subscript)
  | [] => pure []
  | e :: rest => do
    let s ← evalSubscript call e
    return s :: (← evalSubscripts call rest)
termination_by es => 2 * sizeOf es

/-- Binds a target to a value. -/
def assign (call : Caller) : Target → Value → Eval Unit
  | .name name, v => bindName name v
  | .index container index, v => do
    let s ← evalSubscript call index
    storeItem call container s (.set v)
  | .unpack targets, v => do
    let items ← unpackItems targets.length v
    assignAll call targets items
termination_by target _ => 2 * sizeOf target

def assignAll (call : Caller) : List Target → List Value → Eval Unit
  | target :: targets, v :: rest => do
    assign call target v
    assignAll call targets rest
  | _, _ => pure ()
termination_by targets _ => 2 * sizeOf targets

/-- Changes an item of what an expression denotes. The changed container is stored back where it
came from, up to a name; changes of other values are lost. -/
def storeItem (call : Caller) : Expr → Subscript → ItemChange → Eval Unit
  | .name name, s, change => storeAt name s change
  | .index outer index, s, change => do
    let outerSubscript ← evalSubscript call index
    let inner ← getItem (← evalExpr call outer) outerSubscript
    storeItem call outer outerSubscript (.set ((← change.edit inner s).apply inner))
  | e, s, change => do
    let _ ← change.edit (← evalExpr call e) s
termination_by container _ _ => 2 * sizeOf container + 1

end

end DocExamples.Script
