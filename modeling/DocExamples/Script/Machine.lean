import DocExamples.Files.Tree
import DocExamples.Script.Generator
import DocExamples.Script.Output
import DocExamples.Script.Step
/-!
The state of a running program, and computations on it. A computation that fails keeps the state
that it had reached. Every computation tells the steps by which it changes the bindings, so that
one can speak of the bindings in the middle of a run.
-/
namespace DocExamples.Script

structure Machine where
  scopes : Scopes Value
  output : Output
  generator : Generator
  /-- The files that programs may read. -/
  directory : Directory
  /-- How many functions were defined. -/
  defined : Nat

/-- Why a computation has no value. -/
inductive Stop where
  | fault (f : Fault)
  /-- A loop went on for longer than loops may. -/
  | outOfRounds

/-- A computation. The steps of a run are its only effect on the bindings. -/
structure Eval (α : Type) where
  run : Machine → Except Stop α × Machine
  /-- What a run does to the bindings, in order. -/
  steps : Machine → List Step
  scopes_run : ∀ m, (run m).2.scopes = replay (steps m) m.scopes

namespace Eval

variable {α β : Type}

@[inline]
def quiet (f : Machine → Except Stop α × Machine) (same : ∀ m, (f m).2.scopes = m.scopes) :
    Eval α :=
  ⟨f, fun _ => [], same⟩

@[inline]
protected def pure (a : α) : Eval α := quiet (fun m => (.ok a, m)) fun _ => rfl

@[inline]
protected def bind (x : Eval α) (f : α → Eval β) : Eval β where
  run m :=
    match x.run m with
    | (.ok a, m) => (f a).run m
    | (.error e, m) => (.error e, m)
  steps m :=
    x.steps m ++
      match x.run m with
      | (.ok a, m) => (f a).steps m
      | (.error _, _) => []
  scopes_run m := by
    have first := x.scopes_run m
    rcases hx : x.run m with ⟨result, m'⟩
    rw [hx] at first
    cases result with
    | error e => simpa using first
    | ok a => simp only [replay_append, ← first, (f a).scopes_run m']

instance : Monad Eval where
  pure := Eval.pure
  bind := Eval.bind

def stop (e : Stop) : Eval α := quiet (fun m => (.error e, m)) fun _ => rfl

/-- Runs a computation and then another one, whether the first fails or not. -/
@[inline]
def endingWith (x : Eval α) (last : Eval Unit) : Eval α where
  run m :=
    match x.run m with
    | (result, m) =>
      match last.run m with
      | (.ok (), m) => (result, m)
      | (.error e, m) => (.error e, m)
  steps m := x.steps m ++ last.steps (x.run m).2
  scopes_run m := by
    have first := x.scopes_run m
    rcases hx : x.run m with ⟨result, m'⟩
    have second := last.scopes_run m'
    rcases hl : last.run m' with ⟨ended, m''⟩
    rw [hx] at first
    rw [hl] at second
    rw [replay_append, ← first, ← second]
    simp only [hl]
    cases ended <;> rfl

end Eval

def fail {α : Type} (f : Fault) : Eval α := Eval.stop (.fault f)

def lift {α : Type} : Except Fault α → Eval α
  | .ok a => pure a
  | .error f => fail f

instance : MonadLift (Except Fault) Eval := ⟨lift⟩

namespace Machine

def start (directory : Directory) : Machine where
  scopes := .empty
  output := .empty
  generator := .ofSeed 0
  directory
  defined := 0

def get : Eval Machine := Eval.quiet (fun m => (.ok m, m)) fun _ => rfl

def perform (step : Step) : Eval Unit where
  run m := (.ok (), { m with scopes := step.apply m.scopes })
  steps _ := [step]
  scopes_run _ := rfl

def lookup (name : String) : Eval (Option Value) := return (← get).scopes.lookup name

/-- Binds a name in the innermost scope. -/
def define (origin : Origin) (name : String) (v : Value) : Eval Unit :=
  perform (.define origin name v)

/-- Edits the value of a bound name where it is bound. -/
def edit (name : String) (e : Edit) : Eval Unit := perform (.edit name e)

/-- Removes a name from the innermost scope; tells whether it was bound there. -/
def unbind (name : String) : Eval Bool := do
  let bound := ((← get).scopes.remove name).1.isSome
  perform (.unbind name)
  return bound

def write (f : Output → Output) : Eval Unit :=
  Eval.quiet (fun m => (.ok (), { m with output := f m.output })) fun _ => rfl

def print (text : String) : Eval Unit := write (·.print text)

def printLine (text : String) : Eval Unit := write (·.printLine text)

/-- Whether a function is being called. -/
def inCall : Eval Bool := return 0 < (← get).scopes.depth

def newFunction : Eval Nat :=
  Eval.quiet (fun m => (.ok m.defined, { m with defined := m.defined + 1 })) fun _ => rfl

/-- What the generator gives, and the generator after it. -/
def random {α : Type} (f : Generator → α × Generator) : Eval α :=
  Eval.quiet (fun m =>
    let (a, generator) := f m.generator
    (.ok a, { m with generator })) fun _ => rfl

def draw : Eval Float := random (·.next)

def drawMany (n : Nat) : Eval (List Float) := random (·.take n)

def seed (s : UInt64) : Eval Unit := random fun _ => ((), .ofSeed s)

/-- Runs a computation in a new frame, which goes away whether it fails or not. -/
def inFrame {α : Type} (x : Eval α) : Eval α := do
  perform .enterFrame
  x.endingWith (perform .leaveFrame)

end Machine

end DocExamples.Script
