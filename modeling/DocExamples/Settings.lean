import DocExamples.Decimal.Layout
import DocExamples.Decimal.Reading
import DocExamples.Flag
import DocExamples.Text.Blank
/-!
Settings of a testing session, their defaults, and the conditions under which they are valid.
-/
namespace DocExamples

/-- Which documented symbols are tested. -/
inductive Strategy where
  /-- Every reachable symbol with documentation. -/
  | all
  /-- What the root module exports. -/
  | publicApi
  deriving DecidableEq, Repr

inductive SettingsError where
  | negativeTolerance (name : String) (value : Float)
  | nonFiniteTolerance (name : String) (value : Float)
  | verbosityOutOfRange (level : Nat)
  | emptyMarker (set : String)
  | contradictoryOptions (flags : Flags)
  | skipInDefaults (flags : Flags)
  | unknownStrategy (name : String)

/-- Plain decimal digits at every magnitude, without a point for whole numbers. -/
def plainFloat : Decimal.FloatFormat where
  leastPlace := none
  greatestPlace := none
  pointZero := false
  exponent := ⟨false, 1⟩
  nan := "NaN"

def SettingsError.message : SettingsError → String
  | .negativeTolerance name value =>
    "tolerance `" ++ name ++ "` must be non-negative, got " ++ plainFloat.render value
  | .nonFiniteTolerance name value =>
    "tolerance `" ++ name ++ "` must be finite, got " ++ plainFloat.render value
  | .verbosityOutOfRange level => "verbosity must be between 0 and 2, got " ++ toString level
  | .emptyMarker set => "empty token in `" ++ set ++ "`"
  | .contradictoryOptions flags => "option flags both enabled and disabled: " ++ flags.render
  | .skipInDefaults flags => "default option flags may not include " ++ flags.render
  | .unknownStrategy name =>
    "unknown discovery strategy `" ++ name ++ "` (expected `all` or `api`)"

def Strategy.ofName? : String → Except SettingsError Strategy
  | "all" => .ok .all
  | "api" | "public" => .ok .publicApi
  | other => .error (.unknownStrategy other)

/-- Adds a word to a strictly increasing list of words. -/
def insertWord (word : String) : List String → List String
  | [] => [word]
  | w :: rest =>
    if word < w then word :: w :: rest
    else if word = w then w :: rest
    else w :: insertWord word rest

/-- The different words of a list in increasing order. -/
def wordSet (words : List String) : List String := words.foldr insertWord []

structure Settings where
  /-- Absolute tolerance of numeric leaves. -/
  atol : Float
  /-- Tolerance relative to the magnitude of the expected number. -/
  rtol : Float
  /-- The kinds of numbers have to agree, not only their values. -/
  strictTypes : Bool
  flags : Flags
  /-- Words that mark output as different on each run. -/
  randomizedMarkers : List String
  /-- Words that mark an example as an illustration. -/
  pseudocodeMarkers : List String
  /-- Words in the source of examples whose output is not compared. -/
  stopwords : List String
  /-- Names left out of discovery. -/
  skip : List String
  /-- Files a unit may read: the unit's name and a path relative to the unit's file. -/
  resources : List (String × String)
  strategy : Strategy
  parseNamedTuples : Bool
  reportCascades : Bool
  stopOnFirstFailure : Bool
  countSkippedAsAttempted : Bool
  parallel : Bool
  /-- 0 shows failures, 1 also units, 2 also examples. -/
  verbosity : Nat
  /-- Names and expressions bound at the start of every unit. -/
  globals : List (String × String)

namespace Settings

def defaults : Settings where
  atol := Decimal.toFloat false 1 (-8)
  rtol := Decimal.toFloat false 1 (-5)
  strictTypes := false
  flags := .defaults
  randomizedMarkers := wordSet ["# random", "# Random", "#random", "#Random", "# may vary"]
  pseudocodeMarkers := []
  stopwords := wordSet
    ["plt.", ".hist", ".show(", ".ylim", ".subplot(", "set_title", "imshow", ".axis(", ".plot(",
      ".bar(", ".title", ".ylabel", ".xlabel", "set_ylim", "set_xlim", "# reformatted", ".xlim(",
      ".text("]
  skip := []
  resources := []
  strategy := .all
  parseNamedTuples := true
  reportCascades := false
  stopOnFirstFailure := false
  countSkippedAsAttempted := false
  parallel := true
  verbosity := 0
  globals := []

def maxVerbosity : Nat := 2

def checkTolerance (name : String) (value : Float) : Except SettingsError Unit :=
  if !value.isFinite then .error (.nonFiniteTolerance name value)
  else if value < 0.0 then .error (.negativeTolerance name value)
  else .ok ()

def checkMarkers (set : String) (words : List String) : Except SettingsError Unit :=
  if words.any (Text.allBlank ·.toList) then .error (.emptyMarker set) else .ok ()

/-- The first problem of the settings, in the order of the checks. -/
def validate (s : Settings) : Except SettingsError Unit := do
  checkTolerance "atol" s.atol
  checkTolerance "rtol" s.rtol
  if maxVerbosity < s.verbosity then throw (.verbosityOutOfRange s.verbosity)
  let skips := s.flags.inter (.ofList [.skip, .skipBlock])
  if !skips.isEmpty then throw (.skipInDefaults skips)
  checkMarkers "randomized_markers" s.randomizedMarkers
  checkMarkers "pseudocode_markers" s.pseudocodeMarkers
  checkMarkers "stopwords" s.stopwords

/-- How far a number may be from the expected one. -/
def toleranceFor (s : Settings) (want : Float) : Float := s.atol + s.rtol * want.abs

def isSkipped (s : Settings) (name : String) : Bool := s.skip.contains name

def resourcesFor (s : Settings) (unit : String) : List String :=
  (s.resources.filter (·.1 == unit)).map (·.2)

end Settings

end DocExamples
