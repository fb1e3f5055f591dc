import DocExamples.Script.Evaluation
/-!
Execution of statements, and calls of functions that programs define.
-/
namespace DocExamples.Script

inductive Flow where
  | next
  | giveBack (v : Value)
  | leaveLoop
  | nextRound

/-- Visits items one after another until a visit leaves the loop or the function. -/
def visitAll (visit : Value → Eval Flow) : List Value → Eval Flow
  | [] => pure .next
  | item :: rest => do
    match ← visit item with
    | .leaveLoop => return .next
    | .giveBack v => return .giveBack v
    | .next | .nextRound => visitAll visit rest

/-- Repeats a body while a condition holds, for at most `rounds` rounds. -/
def repeatWhile (condition : Eval Bool) (body : Eval Flow) : (rounds : Nat) → Eval Flow
  | 0 => Eval.stop .outOfRounds
  | rounds + 1 => do
    if ← condition then
      match ← body with
      | .leaveLoop => return .next
      | .giveBack v => return .giveBack v
      | .next | .nextRound => repeatWhile condition body rounds
    else return .next

/-- A session shows the value of an expression statement, but not within a call. -/
def echo (v : Value) : Eval Unit := do
  if !v.isNone && !(← Machine.inCall) then Machine.printLine v.repr

def assignEach (call : Caller) (v : Value) : List Target → Eval Unit
  | [] => pure ()
  | target :: rest => do
    assign call target v
    assignEach call v rest

/-- Combines what a target holds with a value and stores the result there. -/
def updateTarget (call : Caller) (target : Target) (op : BinaryOp) (value : Expr) : Eval Unit := do
  match target.toExpr? with
  | none => fail .augmentedUnpacking
  | some e =>
    let current ← evalExpr call e
    let v ← evalExpr call value
    assign call target (← binary op current v)

mutual

def deleteTarget (call : Caller) : Target → Eval Unit
  | .name name => do
    if !(← Machine.unbind name) then fail (.undefinedName name)
  | .index container index => do
    let s ← evalSubscript call index
    storeItem call container s .delete
  | .unpack targets => deleteTargets call targets

def deleteTargets (call : Caller) : List Target → Eval Unit
  | [] => pure ()
  | target :: rest => do
    deleteTarget call target
    deleteTargets call rest

end

/-- Parameters with the values of their defaults. -/
def evalDefaults (call : Caller) :
    List (String × Option Expr) → Eval (List (String × Option Value))
  | [] => pure []
  | (name, none) :: rest => do return (name, none) :: (← evalDefaults call rest)
  | (name, some e) :: rest => do
    let v ← evalExpr call e
    return (name, some v) :: (← evalDefaults call rest)

def raisedBy : Value → Fault
  | .exceptionType kind => .raised kind ""
  | .exception kind message => .raised kind message
  | _ => .type .notAnException

def checkAssertion (call : Caller) (condition : Expr) (message : Option Expr) : Eval Unit := do
  if !(← (← evalExpr call condition).truth) then
    match message with
    | some e => fail (.assertionFailed (← evalExpr call e).display)
    | none => fail (.assertionFailed "")

/-- Binds the module under its new name, or the outermost module of a dotted name under its
own. -/
def importModule (name : String) (newName : Option String) : Eval Unit := do
  if !isModule name then fail (.noModule name)
  match newName with
  | some n => Machine.define .program n (.module name)
  | none =>
    let top := String.ofList (name.toList.takeWhile (· != '.'))
    Machine.define .program top (.module top)

def importEach (owner : String) : List (String × Option String) → Eval Unit
  | [] => pure ()
  | (name, newName) :: rest => do
    match moduleValue? owner name with
    | some v => Machine.define .program (newName.getD name) v
    | none => fail (.noModuleName name owner)
    importEach owner rest

def importNames (owner : String) (names : List (String × Option String)) : Eval Unit := do
  if !isModule owner then fail (.noModule owner)
  importEach owner names

def returnValue (call : Caller) : Option Expr → Eval Value
  | some e => evalExpr call e
  | none => pure .none

mutual

def execStmt (call : Caller) (rounds : Nat) : Stmt → Eval Flow
  | .expr e => do
    echo (← evalExpr call e)
    return .next
  | .assign targets value => do
    assignEach call (← evalExpr call value) targets
    return .next
  | .augAssign target op value => do
    updateTarget call target op value
    return .next
  | .forLoop target source body => do
    let items ← (← evalExpr call source).iterate
    let visit (item : Value) : Eval Flow := do
      assign call target item
      execBlock call rounds body
    visitAll visit items
  | .whileLoop condition body =>
    repeatWhile (do (← evalExpr call condition).truth) (execBlock call rounds body) rounds
  | .ifElse branches otherwise => do
    match ← execBranches call rounds branches with
    | some flow => return flow
    | none => execBlock call rounds otherwise
  | .define name params body => do
    let params ← evalDefaults call params
    Machine.define .program name (.function (← Machine.newFunction) name params body)
    return .next
  | .giveBack value => do
    if !(← Machine.inCall) then fail .returnOutsideFunction
    return .giveBack (← returnValue call value)
  | .raise none => fail .nothingToReraise
  | .raise (some e) => do fail (raisedBy (← evalExpr call e))
  | .assert condition message => do
    checkAssertion call condition message
    return .next
  | .importModule name newName => do
    importModule name newName
    return .next
  | .importNames owner names => do
    importNames owner names
    return .next
  | .delete target => do
    deleteTarget call target
    return .next
  | .pass => pure .next
  | .leaveLoop => pure .leaveLoop
  | .nextRound => pure .nextRound

/-- Statements up to the first that does not go on to the next. -/
def execBlock (call : Caller) (rounds : Nat) : List Stmt → Eval Flow
  | [] => pure .next
  | s :: rest => do
    match ← execStmt call rounds s with
    | .next => execBlock call rounds rest
    | flow => return flow

/-- The first branch whose condition holds, if there is one. -/
def execBranches (call : Caller) (rounds : Nat) :
    List (Expr × List Stmt) → Eval (Option Flow)
  | [] => pure none
  | (condition, body) :: rest => do
    if ← (← evalExpr call condition).truth then some <$> execBlock call rounds body
    else execBranches call rounds rest

end

/-! ### Calls -/

/-- Parameters in order: the values they are bound to so far, and their defaults. -/
structure Parameter where
  name : String
  default : Option Value
  bound : Option Value

/-- Binds the first parameters to the arguments given by position. -/
def bindPositional : List (String × Option Value) → List Value → List Parameter
  | [], _ => []
  | (name, default) :: rest, [] => ⟨name, default, none⟩ :: bindPositional rest []
  | (name, default) :: rest, v :: args => ⟨name, default, some v⟩ :: bindPositional rest args

/-- Binds the first parameter of that name. -/
def bindKeyword (function keyword : String) (v : Value) :
    List Parameter → Except Fault (List Parameter)
  | [] => .error (.type (.unexpectedKeyword function keyword))
  | p :: rest =>
    if p.name = keyword then
      if p.bound.isSome then .error (.type (.repeatedArgument function keyword))
      else .ok ({ p with bound := some v } :: rest)
    else (bindKeyword function keyword v rest).map (p :: ·)

def bindKeywords (function : String) : Keywords → List Parameter → Except Fault (List Parameter)
  | [], params => .ok params
  | (keyword, v) :: rest, params => do
    bindKeywords function rest (← bindKeyword function keyword v params)

/-- The values of all parameters, defaults standing in for what was not given. -/
def localsOf (function : String) : List Parameter → Except Fault (List (String × Value))
  | [] => .ok []
  | p :: rest =>
    match p.bound <|> p.default with
    | some v => do return (p.name, v) :: (← localsOf function rest)
    | none => .error (.type (.missingArgument function p.name))

/-- The bindings with which a call of a function starts. -/
def bindArguments (function : String) (params : List (String × Option Value))
    (args : List Value) (kwargs : Keywords) : Except Fault (List (String × Value)) := do
  if params.length < args.length then
    throw (.type (.wrongArgumentCount function params.length args.length))
  localsOf function (← bindKeywords function kwargs (bindPositional params args))

def defineAll : List (String × Value) → Eval Unit
  | [] => pure ()
  | (name, v) :: rest => do
    Machine.define .call name v
    defineAll rest

/-- The value that a call gives back. -/
def Flow.result : Flow → Value
  | .giveBack v => v
  | _ => .none

/-- Calls a value, where `levels` more calls of functions may nest. -/
def callWithin (rounds : Nat) (levels : Nat) : Caller := fun callee args kwargs =>
  match callee with
  | .builtin b => b.call args kwargs
  | .method receiver name => callMethod receiver name args kwargs
  | .exceptionType kind => pure (.exception kind ((args.head?.map Value.display).getD ""))
  | .function _ name params body =>
    match levels with
    | 0 => fail .recursionLimit
    | levels + 1 => do
      let locals ← bindArguments name params args kwargs
      let flow ← Machine.inFrame do
        defineAll locals
        execBlock (callWithin rounds levels) rounds body
      return flow.result
  | v => fail (.type (.notCallable v.typeName))

end DocExamples.Script
