import DocExamples.Script.Execution
import DocExamples.Script.Program
/-!
Sessions: a namespace that starts with initial bindings and in which sources are executed one
after another.
-/
namespace DocExamples.Script

/-- How far programs may go. -/
structure Limits where
  /-- How many calls may nest. -/
  calls : Nat
  /-- How many rounds a loop may take. -/
  rounds : Nat
  deriving DecidableEq, Repr

def Limits.defaults : Limits := ⟨200, 1 <<< 60⟩

def Limits.caller (limits : Limits) : Caller := callWithin limits.rounds limits.calls

/-- The bindings and the state of a session, when no program runs. -/
structure Namespace where
  machine : Machine

def Stop.toRaised : Stop → Raised
  | .fault f => f.toRaised
  | .outOfRounds => ⟨.runtime, "RuntimeError", "loop does not end"⟩

/-- The error that a source is not a program, if it is none. -/
def syntaxError? (source : String) : Option Raised :=
  match parse source with
  | .ok _ => none
  | .error e => some (Fault.malformed e).toRaised

def parsed (source : String) : Except Fault (List Stmt) := (parse source).mapError .malformed

/-- The value of the expression that an initial binding is given by; the name of a module stands
for the module. -/
def initialValue (limits : Limits) (name source : String) : Eval Value := do
  if isModule source then return .module source
  match ← parsed source with
  | [.expr e] => evalExpr limits.caller e
  | _ => fail (.bindingNotExpression name)

def bindInitial (limits : Limits) : List (String × String) → Eval Unit
  | [] => pure ()
  | (name, source) :: rest => do
    Machine.define .session name (← initialValue limits name source)
    bindInitial limits rest

/-- Runs a program at the level of the module. -/
def runProgram (limits : Limits) (program : List Stmt) : Eval Unit := do
  match ← execBlock limits.caller limits.rounds program with
  | .next | .giveBack _ => pure ()
  | .leaveLoop => fail .breakOutsideLoop
  | .nextRound => fail .continueOutsideLoop

def runSource (limits : Limits) (source : String) : Eval Unit := do
  runProgram limits (← parsed source)

namespace Namespace

/-- A namespace with initial bindings, each an expression that may use those before it. -/
def create (limits : Limits) (globals : List (String × String)) (directory : Directory) :
    Except Raised Namespace :=
  match (bindInitial limits globals).run (.start directory) with
  | (.ok (), m) => .ok ⟨m⟩
  | (.error stop, _) => .error stop.toRaised

/-- Executes a source. The outcome holds what was printed since the last one. -/
def execute (limits : Limits) (source : String) (ns : Namespace) : Outcome × Namespace :=
  let (result, m) := (runSource limits source).run ns.machine
  let (text, output) := m.output.take
  let error := match result with
    | .ok () => none
    | .error stop => some stop.toRaised
  (⟨text, error⟩, ⟨{ m with output }⟩)

/-- The names bound in the module, in increasing order. -/
def names (ns : Namespace) : List String := ns.machine.scopes.globalNames

def get? (ns : Namespace) (name : String) : Option Value := ns.machine.scopes.lookup name

end Namespace

/-- The language of this folder as an interpreter. -/
def interpreter (limits : Limits) : Interpreter where
  Namespace := Namespace
  create := Namespace.create limits
  syntaxError? := syntaxError?
  execute := Namespace.execute limits

end DocExamples.Script
