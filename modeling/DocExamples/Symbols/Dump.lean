import DocExamples.Files.Tree
import DocExamples.Json.Reader
import DocExamples.Symbols.Tree
/-!
Symbol dumps: documented code as a nested description, and the tree that a description stands for.
Symbols that belong elsewhere are referred to by qualified name.
-/
namespace DocExamples

structure SymbolDump where
  name : String
  kind : SymbolKind
  doc : Option String
  file : Option String
  line : Nat
  exports : Option (List String)
  deprecated : Bool
  members : List SymbolDump
  /-- Qualified names of further children. -/
  reexports : List String
  /-- Qualified names of base classes. -/
  bases : List String

inductive DumpFault where
  | json (l : Json.Located)
  /-- JSON, but no description of a symbol. -/
  | notASymbol
  deriving DecidableEq, Repr

def DumpFault.message : DumpFault → String
  | .json l => l.message
  | .notASymbol => "invalid symbol"

inductive SymbolError where
  | unreadable (path : String) (e : FileError)
  | malformed (f : DumpFault)
  | unresolved (source target : String)
  deriving DecidableEq, Repr

def SymbolError.message : SymbolError → String
  | .unreadable path e => "cannot read symbol dump " ++ path ++ ": " ++ e.message
  | .malformed f => "malformed symbol dump: " ++ f.message
  | .unresolved source target =>
    "`" ++ source ++ "` refers to unknown symbol `" ++ target ++ "`"

namespace SymbolDump

/-! ### Reading -/

/-- The fields of a description that were given so far. -/
structure Given where
  name : Option String := none
  kind : Option SymbolKind := none
  doc : Option (Option String) := none
  file : Option (Option String) := none
  line : Option Nat := none
  exports : Option (Option (List String)) := none
  deprecated : Option Bool := none
  members : Option (List SymbolDump) := none
  reexports : Option (List String) := none
  bases : Option (List String) := none

/-- The description; fields that were not given have defaults, save the name. -/
def Given.toDump? (g : Given) : Option SymbolDump :=
  g.name.map fun name => {
    name
    kind := g.kind.getD .module
    doc := g.doc.getD none
    file := g.file.getD none
    line := g.line.getD 0
    exports := g.exports.getD none
    deprecated := g.deprecated.getD false
    members := g.members.getD []
    reexports := g.reexports.getD []
    bases := g.bases.getD [] }

/-- The fields in the order in which a list gives them. -/
def fieldNames : List String :=
  ["name", "kind", "doc", "file", "line", "exports", "deprecated", "members", "reexports", "bases"]

def text? : JsonNode → Option String
  | .str s => some s
  | _ => none

def texts? : JsonNode → Option (List String)
  | .array items => items.mapM text?
  | _ => none

def kind? : JsonNode → Option SymbolKind
  | .str s => SymbolKind.ofName? s
  | .object [(s, .null)] => SymbolKind.ofName? s
  | _ => none

def orNull {α : Type} (read : JsonNode → Option α) : JsonNode → Option (Option α)
  | .null => some none
  | node => (read node).map some

/-- Gives a field a value, unless it has one. -/
def once {α : Type} (old new : Option α) : Option (Option α) :=
  if old.isSome then none else new.map some

/-- Gives the field of that name, other than the members, its value. -/
def setField (g : Given) (name : String) (node : JsonNode) : Option Given :=
  match name with
  | "name" => do return { g with name := ← once g.name (text? node) }
  | "kind" => do return { g with kind := ← once g.kind (kind? node) }
  | "doc" => do return { g with doc := ← once g.doc (orNull text? node) }
  | "file" => do return { g with file := ← once g.file (orNull text? node) }
  | "line" => do
    let line := match node with
      | .natural n => some n
      | _ => none
    return { g with line := ← once g.line line }
  | "exports" => do return { g with exports := ← once g.exports (orNull texts? node) }
  | "deprecated" => do
    let deprecated := match node with
      | .bool b => some b
      | _ => none
    return { g with deprecated := ← once g.deprecated deprecated }
  | "reexports" => do return { g with reexports := ← once g.reexports (texts? node) }
  | "bases" => do return { g with bases := ← once g.bases (texts? node) }
  | _ => none

def setMembers (g : Given) (members : Option (List SymbolDump)) : Option Given := do
  return { g with members := ← once g.members members }

mutual

/-- The description that a value is: an object, or the list of its fields in order. -/
def ofJson? : JsonNode → Option SymbolDump
  | .object fields => do (← fromFields? {} fields).toDump?
  | .array items => do (← fromItems? {} fieldNames items).toDump?
  | _ => none

def fromFields? (g : Given) : List (String × JsonNode) → Option Given
  | [] => some g
  | (name, node) :: rest => do
    if name = "members" then fromFields? (← setMembers g (members? node)) rest
    else fromFields? (← setField g name node) rest

def fromItems? (g : Given) (names : List String) : List JsonNode → Option Given
  | [] => some g
  | node :: rest =>
    match names with
    | [] => none
    | name :: names => do
      if name = "members" then fromItems? (← setMembers g (members? node)) names rest
      else fromItems? (← setField g name node) names rest

def members? : JsonNode → Option (List SymbolDump)
  | .array items => allOfJson? items
  | _ => none

def allOfJson? : List JsonNode → Option (List SymbolDump)
  | [] => some []
  | node :: rest => do return (← ofJson? node) :: (← allOfJson? rest)

end

def read (text : String) : Except DumpFault SymbolDump := do
  let node ← (Json.read text).mapError .json
  match ofJson? node with
  | some d => return d
  | none => throw .notASymbol

/-! ### Trees -/

/-- A symbol whose references are still to be resolved. -/
structure Pending where
  id : SymbolId
  name : String
  reexports : List String
  bases : List String
  deriving DecidableEq, Repr

/-- The tree so far, the qualified names of its symbols, the latest first, and the symbols with
open references, the latest first. -/
structure Loading where
  tree : SymbolTree
  names : List (String × SymbolId)
  pending : List Pending

/-- A file as seen from the directory that the dump lies in. -/
def resolveFile (base : Option String) (file : String) : String :=
  match base with
  | some dir => String.ofList (Path.join dir.toList file.toList)
  | none => file

/-- Gives a symbol what its description says. A line counts only where the file is known. -/
def describe (t : SymbolTree) (id : SymbolId) (doc : Option String) (exports : Option (List String))
    (file : Option String) (line : Nat) (deprecated : Bool) : SymbolTree :=
  let t := doc.elim t (t.setDoc id)
  let t := exports.elim t (t.setExports id)
  let t := file.elim t fun file => t.locate id file line
  if deprecated then t.markDeprecated id else t

mutual

/-- Adds the symbol of a description to `parent`, its members after it. A file that is not given is
the container's. -/
def addMember (base : Option String) (parent : SymbolId) (parentName : String)
    (parentFile : Option String) : SymbolDump → Loading → Loading
  | ⟨name, kind, doc, file, line, exports, deprecated, members, reexports, bases⟩, l =>
    let id := l.tree.size
    let qualified := parentName ++ "." ++ name
    let file := file.map (resolveFile base) <|> parentFile
    let tree := describe (l.tree.add parent name kind) id doc exports file line deprecated
    let l := addMembers base id qualified file members
      { l with tree, names := (qualified, id) :: l.names }
    { l with pending := ⟨id, qualified, reexports, bases⟩ :: l.pending }

def addMembers (base : Option String) (parent : SymbolId) (parentName : String)
    (parentFile : Option String) : List SymbolDump → Loading → Loading
  | [], l => l
  | d :: rest, l =>
    addMembers base parent parentName parentFile rest
      (addMember base parent parentName parentFile d l)

end

/-- The symbols that qualified names stand for, or the first name that stands for none. -/
def resolveAll (names : List (String × SymbolId)) (source : String) :
    List String → Except SymbolError (List SymbolId)
  | [] => .ok []
  | target :: rest => do
    match names.lookup target with
    | some id => return id :: (← resolveAll names source rest)
    | none => throw (.unresolved source target)

/-- Resolves the references of one symbol: first those to further children. -/
def resolvePending (names : List (String × SymbolId)) (t : SymbolTree) (p : Pending) :
    Except SymbolError SymbolTree := do
  let children ← resolveAll names p.name p.reexports
  let bases ← resolveAll names p.name p.bases
  return bases.foldl (·.addBase p.id) (children.foldl (·.reexport p.id) t)

/-- The tree that a description stands for. References are resolved once all symbols are there,
those of the root first and then those of members before those of their containers. -/
def toTree (d : SymbolDump) (base : Option String) : Except SymbolError SymbolTree :=
  let file := d.file.map (resolveFile base)
  let tree := describe (.ofRoot d.name) SymbolTree.root d.doc d.exports file d.line d.deprecated
  let l := addMembers base SymbolTree.root d.name file d.members ⟨tree, [(d.name, 0)], []⟩
  (⟨0, d.name, d.reexports, d.bases⟩ :: l.pending.reverse).foldlM (resolvePending l.names) l.tree

end SymbolDump

namespace SymbolTree

def ofDumpText (text : String) : Except SymbolError SymbolTree := do
  let dump ← (SymbolDump.read text).mapError .malformed
  dump.toTree none

/-- The tree that a dump file describes; files are seen from its directory. -/
def load (files : FileSource) (path : String) : Except SymbolError SymbolTree := do
  let text ← (files.readText path.toList).mapError (.unreadable path)
  let dump ← (SymbolDump.read text).mapError .malformed
  dump.toTree ((Path.parent? path.toList).map String.ofList)

end SymbolTree

end DocExamples
