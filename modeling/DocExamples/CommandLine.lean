import DocExamples.Run.Suite
/-!
The command line: options, the files to test, and what the program answers.
-/
namespace DocExamples.CommandLine

def usage : String :=
  "Usage: numdoc [options] <file>...\n" ++
  "\n" ++
  "Files ending in .json are symbol dumps; every documented symbol is tested.\n" ++
  "Any other file is tested as a single transcript.\n" ++
  "\n" ++
  "Options:\n" ++
  "  -v, -vv             Per-doctest, then per-example output\n" ++
  "  -x, --fail-fast     Stop a doctest at its first failure\n" ++
  "  --strategy=<s>      Discovery strategy: all, api (default: all)\n" ++
  "  --atol=<f>          Absolute tolerance (default: 1e-8)\n" ++
  "  --rtol=<f>          Relative tolerance (default: 1e-5)\n" ++
  "  --strict-types      Compare numeric types, not just values\n" ++
  "  --no-parallel       Run doctests one at a time\n" ++
  "  --skip=<name>       Skip a fully-qualified name (repeatable)\n" ++
  "  --report-cascade    Also report errors caused by earlier errors\n"

/-- Why the arguments do not say what to test. -/
inductive Refusal where
  /-- Help was asked for. -/
  | help
  | unknownStrategy (e : SettingsError)
  | badNumber (argument : String)
  | unknownOption (argument : String)
  | noFiles

def Refusal.message : Refusal → String
  | .help => ""
  | .unknownStrategy e => e.message
  | .badNumber argument => "invalid number in '" ++ argument ++ "'"
  | .unknownOption argument => "unknown option '" ++ argument ++ "'"
  | .noFiles => "no input files"

/-- What the arguments say so far. -/
structure Request where
  settings : Settings
  files : List String

/-- Verbosity is counted up to this. -/
def maxCount : Nat := 255

def Request.louder (r : Request) (n : Nat) : Request :=
  { r with settings.verbosity := min (r.settings.verbosity + n) maxCount }

/-- The text after `start`, if an argument begins with it. -/
def valueOf? (start argument : String) : Option String :=
  (Text.stripStart? start.toList argument.toList).map String.ofList

def readNumber (argument value : String) : Except Refusal Float :=
  (Decimal.readFloat? value.toList).elim (.error (.badNumber argument)) .ok

def valueOption? (r : Request) (argument : String) : Option (Except Refusal Request) :=
  let s := r.settings
  let strategy (value : String) : Except Refusal Request := do
    let strategy ← (Strategy.ofName? value).mapError .unknownStrategy
    return { r with settings := { s with strategy } }
  let atol (value : String) : Except Refusal Request := do
    return { r with settings := { s with atol := ← readNumber argument value } }
  let rtol (value : String) : Except Refusal Request := do
    return { r with settings := { s with rtol := ← readNumber argument value } }
  let skip (value : String) : Except Refusal Request :=
    .ok { r with settings := { s with skip := insertWord value s.skip } }
  [("--strategy=", strategy), ("--atol=", atol), ("--rtol=", rtol), ("--skip=", skip)].findSome?
    fun (start, read) => (valueOf? start argument).map read

def readArgument (r : Request) (argument : String) : Except Refusal Request :=
  let s := r.settings
  match argument with
  | "-v" | "--verbose" => .ok (r.louder 1)
  | "-vv" => .ok (r.louder 2)
  | "-x" | "--fail-fast" => .ok { r with settings := { s with stopOnFirstFailure := true } }
  | "--strict-types" => .ok { r with settings := { s with strictTypes := true } }
  | "--no-parallel" => .ok { r with settings := { s with parallel := false } }
  | "--report-cascade" => .ok { r with settings := { s with reportCascades := true } }
  | "-h" | "--help" => .error .help
  | argument =>
    match valueOption? r argument with
    | some result => result
    | none =>
      if argument.toList.head? = some '-' then .error (.unknownOption argument)
      else .ok { r with files := r.files ++ [argument] }

/-- What the arguments ask for, read from left to right. -/
def readArguments (arguments : List String) : Except Refusal Request := do
  let r ← arguments.foldlM readArgument ⟨.defaults, []⟩
  if r.files.isEmpty then throw .noFiles
  return r

/-- The files to test, if the arguments say so much. -/
def filesOf (arguments : List String) : List String :=
  ((readArguments arguments).toOption.map (·.files)).getD []

structure Answer where
  code : Nat
  output : String
  errors : String
  deriving DecidableEq, Repr

def refuse : Refusal → Answer
  | .help => ⟨0, "", usage⟩
  | r => ⟨2, "", "error: " ++ r.message ++ "\n\n" ++ usage⟩

def isDump (path : String) : Bool := Path.extension? path.toList = some "json".toList

def testPath (w : Workshop) (settings : Settings) (path : String) : Except SuiteError TestRun :=
  if isDump path then w.testDump settings path else w.testFile settings path

/-- Tests the files one after another, up to the first that cannot be tested. -/
def testAll (w : Workshop) (r : Request) : Except SuiteError TestRun := do
  r.settings.validate.mapError .settings
  r.files.foldlM (fun total path => return total.merge (← testPath w r.settings path)) .empty

/-- The program: 0 if all went well, 1 if something failed, 2 if there was no run. -/
def answer (w : Workshop) (arguments : List String) : Answer :=
  match readArguments arguments with
  | .error refusal => refuse refusal
  | .ok r =>
    match testAll w r with
    | .error e => ⟨2, "", "error: " ++ e.message ++ "\n"⟩
    | .ok run => ⟨if run.succeeded then 0 else 1, run.render r.settings, ""⟩

end DocExamples.CommandLine
