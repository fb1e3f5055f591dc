import DocExamples.Interpreter
import DocExamples.Example
import DocExamples.Tally
import DocExamples.Text.Blank
/-!
Reports of runs: how every example ended, and the text that shows the failures of a unit.
-/
namespace DocExamples

inductive Failure where
  /-- The output is not the expected one. -/
  | mismatch (got : String)
  /-- An error that the example does not document. -/
  | unexpectedError (output : String) (error : Raised)
  /-- An undefined name after an earlier unexpected error, which is likely to be its cause. -/
  | cascade (error : Raised)
  /-- The source of an illustration is not a program. -/
  | invalidSyntax (error : Raised)
  deriving DecidableEq, Repr

def Failure.isCascade : Failure → Bool
  | .cascade _ => true
  | _ => false

/-- An example is pending until the run reaches it. It is executing while the interpreter has it, and
then takes one of the other states. What comes after the end of a run stays pending. -/
inductive ExampleState where
  | pending
  | executing
  | passed
  | skipped
  | failed (f : Failure)
  deriving DecidableEq, Repr

namespace ExampleState

def isTerminal : ExampleState → Bool
  | .pending | .executing => false
  | _ => true

def failure? : ExampleState → Option Failure
  | .failed f => some f
  | _ => none

def hasFailed (s : ExampleState) : Bool := s.failure?.isSome

@[simp]
theorem hasFailed_pending : pending.hasFailed = false := rfl

@[simp]
theorem hasFailed_passed : passed.hasFailed = false := rfl

@[simp]
theorem hasFailed_skipped : skipped.hasFailed = false := rfl

@[simp]
theorem hasFailed_failed (f : Failure) : (failed f).hasFailed = true := rfl

def status : ExampleState → String
  | .passed => "ok"
  | .failed f => if f.isCascade then "FAILED (cascade)" else "FAILED"
  | .skipped => "skipped"
  | .pending | .executing => "not run"

end ExampleState

structure ExampleReport where
  /-- The line of the prompt within the documentation, counted from zero. -/
  line : Nat
  source : String
  want : String
  state : ExampleState
  deriving DecidableEq, Repr

namespace ExampleReport

def pending (e : Example) : ExampleReport := ⟨e.line, e.source, e.want, .pending⟩

def withState (r : ExampleReport) (state : ExampleState) : ExampleReport := { r with state }

end ExampleReport

structure DoctestReport where
  name : String
  file : Option String
  /-- The line of the documentation within its file. -/
  line : Nat
  counts : Counts
  examples : List ExampleReport
  deriving DecidableEq, Repr

def separatorLine : String := String.ofList (List.replicate 70 '*')

/-- Every line of a text, four columns to the right. -/
def indented (text : String) : String :=
  String.join ((Text.lines text.toList).map fun line => "    " ++ String.ofList line ++ "\n")

def expectedText (want : String) : String :=
  if want.isEmpty then "Expected nothing\n" else "Expected:\n" ++ indented want

def gotText (got : String) : String :=
  if got.isEmpty then "Got nothing\n" else "Got:\n" ++ indented got

def raisedText (error : Raised) : String :=
  "Exception raised:\n" ++ indented (tracebackHeader ++ "\n...\n" ++ error.reportLine)

/-- What a failure shows after the source of its example. -/
def Failure.render (want : String) : Failure → String
  | .mismatch got => expectedText want ++ gotText got
  | .unexpectedError _ error | .cascade error => raisedText error
  | .invalidSyntax error => "Invalid syntax:\n" ++ indented error.reportLine

namespace DoctestReport

/-- The failed examples, those that an earlier error caused only on request. -/
def failures (r : DoctestReport) (cascades : Bool) : List (ExampleReport × Failure) :=
  r.examples.filterMap fun e =>
    match e.state.failure? with
    | some f => if cascades || !f.isCascade then some (e, f) else none
    | none => none

/-- Where an example stands; lines count from one. -/
def placeText (r : DoctestReport) (e : ExampleReport) : String :=
  let line := toString (r.line + e.line + 1)
  match r.file with
  | some file => "File \"" ++ file ++ "\", line " ++ line ++ ", in " ++ r.name ++ "\n"
  | none => "Line " ++ line ++ ", in " ++ r.name ++ "\n"

def renderFailure (r : DoctestReport) (e : ExampleReport) (f : Failure) : String :=
  separatorLine ++ "\n" ++ r.placeText e ++ "Failed example:\n" ++ indented e.source ++
    f.render e.want

def renderFailures (r : DoctestReport) (cascades : Bool) : String :=
  String.join ((r.failures cascades).map fun (e, f) => r.renderFailure e f)

end DoctestReport

end DocExamples
