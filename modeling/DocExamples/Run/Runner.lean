import DocExamples.Output.Checker
import DocExamples.Run.Report
/-!
Running the examples of a unit one after another, in one namespace.
-/
namespace DocExamples

/-- Why a unit has no report. -/
inductive RunError where
  | options (unit : String) (flags : Flags)
  | resource (unit path : String) (e : FileError)
  | namespace (unit : String) (error : Raised)

def Raised.inline (r : Raised) : String :=
  String.ofList (Text.trimEnd r.reportLine.toList)

def RunError.message : RunError → String
  | .options unit flags => unit ++ ": " ++ (SettingsError.contradictoryOptions flags).message
  | .resource unit path e =>
    unit ++ ": cannot copy local resource " ++ path ++ ": " ++ e.message
  | .namespace unit error => unit ++ ": cannot set up the namespace: " ++ error.inline

/-! ### Examples -/

/-- What a run has counted so far. -/
structure Session where
  attempted : Nat := 0
  failed : Nat := 0
  skipped : Nat := 0
  /-- An example raised an error that it does not document. -/
  hadError : Bool := false
  deriving DecidableEq, Repr

/-- How an example ended, and whether an unexpected error has been seen by then. -/
structure Ending where
  state : ExampleState
  hadError : Bool
  deriving DecidableEq, Repr

namespace Session

def skip (s : Session) : Session := { s with skipped := s.skipped + 1 }

def add (s : Session) (ending : Ending) : Session :=
  { s with
    attempted := s.attempted + 1
    failed := if ending.state.hasFailed then s.failed + 1 else s.failed
    hadError := ending.hadError }

/-- Skipped examples count as attempted if the settings say so. -/
def counts (s : Session) (settings : Settings) : Counts where
  attempted := if settings.countSkippedAsAttempted then s.attempted + s.skipped else s.attempted
  failed := s.failed
  skipped := s.skipped

end Session

/-- An illustration has to be a program and is not run. -/
def illustrationState (error : Option Raised) : ExampleState :=
  match error with
  | none => .passed
  | some e => .failed (.invalidSyntax e)

section

variable (i : Interpreter) (checker : Output.Checker) (settings : Settings)

def errorEnding (e : Example) (hadError : Bool) (output : String) (error : Raised) :
    Except Flags Ending := do
  if ← checker.checkError settings e error.reportLine then return ⟨.passed, hadError⟩
  else if error.category = .undefinedName ∧ hadError then
    return ⟨.failed (.cascade error), hadError⟩
  else return ⟨.failed (.unexpectedError output error), true⟩

/-- The ending of an example that printed output and raised no error. -/
def outputEnding (e : Example) (hadError : Bool) (output : String) : Except Flags Ending := do
  let verdict ← checker.check settings e output
  return ⟨if verdict.isPass then .passed else .failed (.mismatch output), hadError⟩

def outcomeEnding (e : Example) (hadError : Bool) (o : Outcome) : Except Flags Ending :=
  match o.error with
  | some error => errorEnding checker settings e hadError o.output error
  | none => outputEnding checker settings e hadError o.output

/-- Runs one example; options that contradict each other end the run. -/
def runExample (e : Example) (hadError : Bool) (ns : i.Namespace) :
    Except Flags (Ending × i.Namespace) :=
  if e.pseudocode then .ok (⟨illustrationState (i.syntaxError? e.source), hadError⟩, ns)
  else
    let (outcome, ns) := i.execute e.source ns
    (outcomeEnding checker settings e hadError outcome).map (·, ns)

/-- Skips an example or runs it, and notes on its report how it ends. -/
def visit (session : Session) (ns : i.Namespace) (e : Example) (report : ExampleReport) :
    Except Flags (ExampleReport × Session × i.Namespace) := do
  let flags ← e.overrides.resolve settings.flags
  if flags.requestsSkip then return (report.withState .skipped, session.skip, ns)
  let report := report.withState .executing
  let (ending, ns) ← runExample i checker settings e session.hadError ns
  return (report.withState ending.state, session.add ending, ns)

/-- Visits the examples in order. After the first failure the others are left as they are, if the
settings ask for that. -/
def visitAll : Session → i.Namespace → List (Example × ExampleReport) →
    Except Flags (List ExampleReport × Session)
  | session, _, [] => .ok ([], session)
  | session, ns, (e, report) :: rest => do
    let (report, session, ns) ← visit i checker settings session ns e report
    if report.state.hasFailed && settings.stopOnFirstFailure then
      return (report :: rest.map (·.2), session)
    let (reports, session) ← visitAll session ns rest
    return (report :: reports, session)

/-- The reports on the examples of a unit, which are all pending at first, and what was counted. -/
def runExamples (examples : List Example) (ns : i.Namespace) :
    Except Flags (List ExampleReport × Session) :=
  visitAll i checker settings {} ns (examples.map fun e => (e, .pending e))

end

/-! ### Units -/

/-- Copies the files that a unit may read from around it into its own directory. -/
def copyResources (files : FileSource) (d : Doctest) :
    List String → Directory → Except RunError Directory
  | [], own => .ok own
  | resource :: rest, own => do
    let path := Path.join (d.directory?.getD ".").toList resource.toList
    let failed (e : FileError) : RunError := .resource d.name (String.ofList path) e
    match Path.fileName? resource.toList with
    | none => throw (failed .noFileName)
    | some name =>
      let own ← (files.copyInto path name own).mapError failed
      copyResources files d rest own

/-- Runs a unit in a namespace and a directory of its own, with the files that are copied there. -/
def runDoctest (i : Interpreter) (checker : Output.Checker) (settings : Settings)
    (files : FileSource) (d : Doctest) : Except RunError DoctestReport := do
  let own ← copyResources files d (settings.resourcesFor d.name) .empty
  let ns ← (i.create d.globals own).mapError (.namespace d.name)
  let (examples, session) ← (runExamples i checker settings d.examples ns).mapError (.options d.name)
  return {
    name := d.name
    file := d.file
    line := d.line
    counts := session.counts settings
    examples }

end DocExamples
