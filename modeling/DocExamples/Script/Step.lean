import DocExamples.Script.Edit
import DocExamples.Script.Scopes
/-!
Steps: what programs do to the bindings, one name or one frame at a time.
-/
namespace DocExamples.Script

inductive Origin where
  | program
  /-- A call, which binds the parameters of a function. -/
  | call
  /-- The start of a session, which gives the initial bindings. -/
  | session
  deriving DecidableEq, Repr

inductive Step where
  /-- Binds a name in the innermost scope. -/
  | define (origin : Origin) (name : String) (v : Value)
  /-- Edits the value of a bound name where it is bound. -/
  | edit (name : String) (e : Edit)
  /-- Removes a name from the innermost scope. -/
  | unbind (name : String)
  | enterFrame
  | leaveFrame

def Step.apply : Step → Scopes Value → Scopes Value
  | .define _ name v, s => s.define name v
  | .edit name e, s => s.change name e.apply
  | .unbind name, s => (s.remove name).2
  | .enterFrame, s => s.pushFrame
  | .leaveFrame, s => s.popFrame

/-- The bindings after steps, the first one first. -/
def replay (steps : List Step) (s : Scopes Value) : Scopes Value :=
  steps.foldl (fun s step => step.apply s) s

@[simp]
theorem replay_nil (s : Scopes Value) : replay [] s = s := rfl

@[simp]
theorem replay_cons (step : Step) (steps : List Step) (s : Scopes Value) :
    replay (step :: steps) s = replay steps (step.apply s) := rfl

theorem replay_append (first second : List Step) (s : Scopes Value) :
    replay (first ++ second) s = replay second (replay first s) :=
  List.foldl_append

end DocExamples.Script
