import DocExamples.Run.Runner
import DocExamples.Symbols.Discovery
import DocExamples.Symbols.Dump
/-!
Testing a text file, or everything that a symbol tree documents, and the text that sums up the
result.
-/
namespace DocExamples

/-- What was learned about a number of units. -/
structure TestRun where
  history : History
  reports : List DoctestReport
  /-- Units that could not be read. They count as failures of the run, not as examples. -/
  collectErrors : List CollectError

/-- Why there is no test run. -/
inductive SuiteError where
  | unreadable (path : String) (e : FileError)
  | settings (e : SettingsError)
  | symbols (e : SymbolError)
  | run (e : RunError)

def SuiteError.message : SuiteError → String
  | .unreadable path e => "cannot read " ++ path ++ ": " ++ e.message
  | .settings e => e.message
  | .symbols e => e.message
  | .run e => e.message

namespace TestRun

def empty : TestRun := ⟨.empty, [], []⟩

/-- The reports of a run, in order. -/
def ofReports (reports : List DoctestReport) (collectErrors : List CollectError) : TestRun where
  history := reports.foldl (fun h r => h.record r.name r.counts) .empty
  reports
  collectErrors

def merge (a b : TestRun) : TestRun where
  history := a.history.merge b.history
  reports := a.reports ++ b.reports
  collectErrors := a.collectErrors ++ b.collectErrors

def totals (r : TestRun) : Counts := r.history.totals

def succeeded (r : TestRun) : Bool := !r.totals.hasFailures && r.collectErrors.isEmpty

def exampleLine (e : ExampleReport) : String :=
  let first := (Text.lines e.source.toList).headD []
  "    line " ++ toString (e.line + 1) ++ ": " ++ String.ofList first ++ " ... " ++
    e.state.status ++ "\n"

/-- A unit at a level of verbosity: a line from level 1 on, a line for each example from level 2
on, and always its failures. -/
def unitText (settings : Settings) (r : DoctestReport) : String :=
  let unit := if 1 ≤ settings.verbosity then r.name ++ ": " ++ r.counts.render ++ "\n" else ""
  let examples :=
    if 2 ≤ settings.verbosity then String.join (r.examples.map exampleLine) else ""
  unit ++ examples ++ r.renderFailures settings.reportCascades

def lastLine (r : TestRun) : String :=
  if !r.succeeded then "FAILED\n" else if r.reports.isEmpty then "NO TESTS FOUND\n" else "OK\n"

/-- The whole report: what could not be read, the units, the totals and the verdict. -/
def render (r : TestRun) (settings : Settings) : String :=
  String.join (r.collectErrors.map fun e => "ERROR: " ++ e.message ++ "\n") ++
    String.join (r.reports.map (unitText settings)) ++
    toString r.reports.length ++ " doctests: " ++ r.totals.render ++ "\n" ++ r.lastLine

end TestRun

/-- Where tests run: the language, the rules for output, and the files. -/
structure Workshop where
  interpreter : Interpreter
  checker : Output.Checker
  files : FileSource

namespace Workshop

def runAll (w : Workshop) (settings : Settings) (units : List Doctest) :
    Except SuiteError (List DoctestReport) :=
  (units.mapM (runDoctest w.interpreter w.checker settings w.files)).mapError .run

/-- Tests a text file as one unit, named after the file. -/
def testFile (w : Workshop) (settings : Settings) (path : String) :
    Except SuiteError TestRun := do
  settings.validate.mapError .settings
  let text ← (w.files.readText path.toList).mapError (.unreadable path)
  let name := ((Path.fileName? path.toList).map String.ofList).getD path
  match Transcript.readDoctest settings text name (some path) 0 settings.globals with
  | .error cause => return .ofReports [] [⟨name, cause⟩]
  | .ok unit => return .ofReports (← w.runAll settings [unit]) []

/-- Tests everything that a tree documents. -/
def testTree (w : Workshop) (settings : Settings) (t : SymbolTree) : Except SuiteError TestRun := do
  settings.validate.mapError .settings
  let collected := t.discover settings
  let units := collected.filterMap (·.toOption)
  let errors := collected.filterMap fun
    | .error e => some e
    | .ok _ => none
  return .ofReports (← w.runAll settings units) errors

/-- Tests everything that a dump file documents. -/
def testDump (w : Workshop) (settings : Settings) (path : String) : Except SuiteError TestRun := do
  let t ← (SymbolTree.load w.files path).mapError .symbols
  w.testTree settings t

end Workshop

end DocExamples
