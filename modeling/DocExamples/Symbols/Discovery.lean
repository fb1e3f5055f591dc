import DocExamples.Symbols.Ancestry
import DocExamples.Symbols.Walk
import DocExamples.Transcript.Reader
/-!
Discovery: which documented symbols are tested, under which names, and the examples of each.
-/
namespace DocExamples

/-- A symbol selected for testing, and the symbol whose documentation is used. -/
structure Candidate where
  name : String
  symbol : SymbolId
  source : SymbolId
  deriving DecidableEq, Repr

/-- A unit whose documentation could not be read. -/
structure CollectError where
  name : String
  cause : Transcript.ReadError

def CollectError.message (e : CollectError) : String := e.name ++ ": " ++ e.cause.message

namespace SymbolTree

def isPrivate (name : String) : Bool := name.toList.head? = some '_'

/-- Adds the public members of a class that no member before has the name of. Deprecated members
do not take their name. -/
def addMembers (t : SymbolTree) (met : List SymbolId) : List SymbolId → List SymbolId
  | [] => met
  | member :: rest =>
    let s := t.get member
    let known := met.any fun m => (t.get m).name == s.name
    addMembers t (if isPrivate s.name || s.deprecated || known then met else met ++ [member]) rest

/-- The public members of a class: its own, then those of its ancestors that are not shadowed. -/
def classMembers (t : SymbolTree) (id : SymbolId) : List SymbolId :=
  (id :: t.ancestry id).foldl (fun met owner => t.addMembers met (t.get owner).children) []

/-- What an exported name of the root stands for: a symbol that is not deprecated, and the members
of a class. -/
def exportEntries (t : SymbolTree) (name : String) : List NamedSymbol :=
  match t.childNamed? root name with
  | none => []
  | some member =>
    let s := t.get member
    let path := (t.get root).name ++ "." ++ name
    if s.deprecated then []
    else if s.kind = .classType then
      ⟨member, path⟩ :: (t.classMembers member).map fun m => ⟨m, path ++ "." ++ (t.get m).name⟩
    else [⟨member, path⟩]

/-- The root and what it exports. -/
def publicEntries (t : SymbolTree) : List NamedSymbol :=
  let s := t.get root
  if s.kind ≠ .module || isPrivate s.name then [t.namedRoot]
  else
    let names := (s.exports.getD []).filter fun name => !isPrivate name
    t.namedRoot :: names.flatMap t.exportEntries

/-- Whether the settings leave a symbol out, by the name it was reached by or by its own. -/
def isSkipped (t : SymbolTree) (settings : Settings) (e : NamedSymbol) : Bool :=
  settings.isSkipped e.name || settings.isSkipped (t.qualifiedName e.symbol)

/-- What an entry is tested as: nothing if it is left out or without documentation. -/
def candidateAt? (t : SymbolTree) (settings : Settings) (e : NamedSymbol) : Option Candidate :=
  if t.isSkipped settings e then none
  else (t.docSource? e.symbol).map fun source => ⟨e.name, e.symbol, source⟩

/-- The documented entries that are not left out, with their sources. -/
def documented (t : SymbolTree) (settings : Settings) (entries : List NamedSymbol) :
    List Candidate :=
  entries.filterMap (t.candidateAt? settings)

/-- The first candidate of every source that is not among `seen`. -/
def firstOfSource (seen : List SymbolId) : List Candidate → List Candidate
  | [] => []
  | c :: rest =>
    if seen.contains c.source then firstOfSource seen rest
    else c :: firstOfSource (c.source :: seen) rest

/-- The symbols to test. Of the public ones, those that share their documentation are tested
once. -/
def candidates (t : SymbolTree) (settings : Settings) (strategy : Strategy) : List Candidate :=
  match strategy with
  | .all => t.documented settings t.allPaths
  | .publicApi => firstOfSource [] (t.documented settings t.publicEntries)

def unitOf (t : SymbolTree) (settings : Settings) (c : Candidate) :
    Except CollectError Doctest :=
  let s := t.get c.source
  (Transcript.readDoctest settings (s.doc.getD "") c.name s.file s.line settings.globals).mapError
    fun cause => ⟨c.name, cause⟩

/-- The units with examples, and those that could not be read. -/
def discover (t : SymbolTree) (settings : Settings) : List (Except CollectError Doctest) :=
  ((t.candidates settings settings.strategy).map (t.unitOf settings)).filter fun
    | .ok d => !d.examples.isEmpty
    | .error _ => true

end SymbolTree

end DocExamples
