import DocExamples.Text.Blank
/-!
Documented code as a graph: modules and classes hold members, and may hold symbols that belong to
others as well. Symbols are numbered in the order in which they were added, the root being 0.
-/
namespace DocExamples

inductive SymbolKind where
  | module | classType | function | method
  | attribute
  deriving DecidableEq, Repr

namespace SymbolKind

def all : List SymbolKind := [.module, .classType, .function, .method, .attribute]

def name : SymbolKind → String
  | .module => "module"
  | .classType => "class"
  | .function => "function"
  | .method => "method"
  | .attribute => "attribute"

def ofName? (name : String) : Option SymbolKind := all.find? (·.name == name)

end SymbolKind

abbrev SymbolId := Nat

structure Symbol where
  name : String
  kind : SymbolKind
  /-- The container that the symbol was added to. -/
  owner : Option SymbolId
  doc : Option String := none
  /-- The names that a module exports, if it says so. -/
  exports : Option (List String) := none
  /-- The symbols that can be reached from this one, in order. -/
  children : List SymbolId := []
  bases : List SymbolId := []
  file : Option String := none
  /-- The line of the documentation in its file. -/
  line : Nat := 0
  deprecated : Bool := false
  deriving DecidableEq, Repr

structure SymbolTree where
  symbols : Array Symbol
  deriving DecidableEq, Repr

namespace SymbolTree

def ofRoot (name : String) : SymbolTree := ⟨#[{ name, kind := .module, owner := none }]⟩

def root : SymbolId := 0

def size (t : SymbolTree) : Nat := t.symbols.size

/-- The symbol of that number; one without a name if there is none. -/
def get (t : SymbolTree) (id : SymbolId) : Symbol :=
  t.symbols.getD id { name := "", kind := .module, owner := none }

def ids (t : SymbolTree) : List SymbolId := List.range t.size

/-! ### Building -/

def update (t : SymbolTree) (id : SymbolId) (f : Symbol → Symbol) : SymbolTree :=
  ⟨t.symbols.modify id f⟩

/-- Adds a symbol to a container, which becomes its owner. -/
def add (t : SymbolTree) (parent : SymbolId) (name : String) (kind : SymbolKind) : SymbolTree :=
  (SymbolTree.mk (t.symbols.push { name, kind, owner := some parent })).update parent fun s =>
    { s with children := s.children ++ [t.size] }

def setDoc (t : SymbolTree) (id : SymbolId) (text : String) : SymbolTree :=
  t.update id fun s => { s with doc := some text }

def setExports (t : SymbolTree) (id : SymbolId) (names : List String) : SymbolTree :=
  t.update id fun s => { s with exports := some names }

/-- Makes a symbol reachable from a container that need not own it. -/
def reexport (t : SymbolTree) (container symbol : SymbolId) : SymbolTree :=
  t.update container fun s => { s with children := s.children ++ [symbol] }

def addBase (t : SymbolTree) (id base : SymbolId) : SymbolTree :=
  t.update id fun s => { s with bases := s.bases ++ [base] }

def locate (t : SymbolTree) (id : SymbolId) (file : String) (line : Nat) : SymbolTree :=
  t.update id fun s => { s with file := some file, line }

def markDeprecated (t : SymbolTree) (id : SymbolId) : SymbolTree :=
  t.update id fun s => { s with deprecated := true }

/-! ### Names -/

/-- Whether a module's export list names `name`. A module without a list exports nothing. -/
def isExported (t : SymbolTree) (id : SymbolId) (name : String) : Bool :=
  (t.get id).exports.any (·.contains name)

def childNamed? (t : SymbolTree) (container : SymbolId) (name : String) : Option SymbolId :=
  (t.get container).children.find? fun child => (t.get child).name == name

/-- The names of a symbol and of its owners, at most `fuel` of them, the outermost first. -/
def ownerNames (t : SymbolTree) : Nat → SymbolId → List String
  | 0, _ => []
  | fuel + 1, id =>
    let s := t.get id
    (s.owner.elim [] (ownerNames t fuel)) ++ [s.name]

/-- The name of a symbol with those of its owners in front, joined by points. -/
def qualifiedName (t : SymbolTree) (id : SymbolId) : String :=
  ".".intercalate (t.ownerNames t.size id)

/-- Follows names from child to child. -/
def follow (t : SymbolTree) (id : SymbolId) : List String → Option SymbolId
  | [] => some id
  | name :: rest => (t.childNamed? id name).bind fun child => follow t child rest

/-- The symbol that a dotted name leads to from the root, which it starts with. -/
def find? (t : SymbolTree) (name : String) : Option SymbolId :=
  match (Text.fields (· == '.') name.toList).map String.ofList with
  | first :: rest => if first = (t.get root).name then t.follow root rest else none
  | [] => none

end SymbolTree

end DocExamples
