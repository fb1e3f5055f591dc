/-!
Literals: values as printed output shows them.
-/
namespace DocExamples

/-- The kind of a number, which matters under strict types only. -/
inductive NumberKind where
  | int
  | float
  /-- A wrapper such as `float64(…)`. -/
  | named (name : String)
  deriving DecidableEq, Repr

structure Number where
  value : Float
  kind : NumberKind

inductive ArrayStyle where
  | repr
  | printed
  deriving DecidableEq, Repr

/-- A value without parts, as arrays hold them. `masked` is a masked entry, printed `--`. -/
inductive Leaf where
  | number (n : Number)
  | str (s : String)
  | bool (b : Bool)
  | none
  | masked

structure ArrayLiteral where
  style : ArrayStyle
  /-- The elements in row-major order, without the marks of abbreviation. -/
  leaves : List Leaf
  /-- The shape that the brackets show; an abbreviated array shows none. -/
  shape : Option (List Nat)
  declaredShape : Option (List Nat)
  dtype : Option String
  abbreviated : Bool

inductive Literal where
  | leaf (l : Leaf)
  | ellipsis
  | list (items : List Literal)
  | tuple (items : List Literal)
  | dict (entries : List (Literal × Literal))
  | array (a : ArrayLiteral)

/-- Equal as values; a number that is no number equals none. -/
def Number.same (a b : Number) : Bool := a.value == b.value && a.kind == b.kind

def Leaf.same : Leaf → Leaf → Bool
  | .number a, .number b => a.same b
  | .str a, .str b => a == b
  | .bool a, .bool b => a == b
  | .none, .none => true
  | .masked, .masked => true
  | _, _ => false

def Leaf.sameAll : List Leaf → List Leaf → Bool
  | [], [] => true
  | a :: as, b :: bs => a.same b && sameAll as bs
  | _, _ => false

def ArrayLiteral.same (a b : ArrayLiteral) : Bool :=
  a.style == b.style && Leaf.sameAll a.leaves b.leaves && a.shape == b.shape &&
    a.declaredShape == b.declaredShape && a.dtype == b.dtype && a.abbreviated == b.abbreviated

namespace Literal

mutual

/-- Equal form and equal leaves. -/
def same : Literal → Literal → Bool
  | .leaf a, .leaf b => a.same b
  | .ellipsis, .ellipsis => true
  | .list as, .list bs => sameAll as bs
  | .tuple as, .tuple bs => sameAll as bs
  | .dict as, .dict bs => sameEntries as bs
  | .array a, .array b => a.same b
  | _, _ => false

def sameAll : List Literal → List Literal → Bool
  | [], [] => true
  | a :: as, b :: bs => same a b && sameAll as bs
  | _, _ => false

def sameEntries : List (Literal × Literal) → List (Literal × Literal) → Bool
  | [], [] => true
  | (k, v) :: as, (l, w) :: bs => same k l && same v w && sameEntries as bs
  | _, _ => false

end

end Literal

end DocExamples
