import DocExamples.Script.Value
/-!
Values inside values: what iteration visits, the elements and rows of arrays as values, and arrays
from nested sequences of numbers.
-/
namespace DocExamples.Script

namespace Tensor

def elementValue (kind : ElementKind) (x : Float) : Value :=
  match kind with
  | .bool => .bool (x != 0.0)
  | .int => .int (Binary64.toInt64 x)
  | .float => .float x

def elements (t : Tensor) : List Value := t.data.toList.map (elementValue t.kind)

/-- An array, or its element if it has no axes. -/
def toValue (t : Tensor) : Value :=
  match t.shape with
  | [] => elementValue t.kind (t.get 0)
  | _ => .tensor t

/-- The parts along the first axis. -/
def rows (t : Tensor) : List Value :=
  match t.shape with
  | [] => []
  | n :: rest => (List.range n).map fun index => toValue ⟨t.rowData index, rest, t.kind⟩

/-- Nested lists of the elements of an array with that shape. -/
def nestedLists (kind : ElementKind) : List Nat → Array Float → Value
  | [], data => elementValue kind (data.getD 0 0.0)
  | n :: rest, data =>
    let stride := volume rest
    .ofList ((List.range n).map fun index =>
      nestedLists kind rest (data.extract (index * stride) (index * stride + stride)))

def toList (t : Tensor) : Value := nestedLists t.kind t.shape t.data

end Tensor

/-- The numbers found so far, and the kind of what they combine to. -/
structure Gathered where
  data : Array Float
  kind : ElementKind

mutual

/-- Adds the numbers of a value from left to right; the result has the shape of the value. -/
def gather : Value → Gathered → Except Fault (Gathered × List Nat)
  | .int i, g => .ok ({ g with data := g.data.push (Binary64.ofInt i.toInt) }, [])
  | .bool b, g => .ok ({ g with data := g.data.push (Binary64.ofBool b) }, [])
  | .float x, g => .ok (⟨g.data.push x, .float⟩, [])
  | .tensor t, g => .ok (⟨g.data ++ t.data, g.kind.join t.kind⟩, t.shape)
  | .list ⟨items⟩, g | .tuple items, g => do
    let (g, inner) ← gatherAll items none g
    return (g, items.length :: inner.getD [])
  | v, _ => .error (.type (.notNumeric v.typeName))

/-- Adds the numbers of values, which all have to have one shape. -/
def gatherAll : List Value → Option (List Nat) → Gathered →
    Except Fault (Gathered × Option (List Nat))
  | [], inner, g => .ok (g, inner)
  | v :: rest, inner, g => do
    let (g, shape) ← gather v g
    if inner.any (· != shape) then throw (.value .inhomogeneous)
    gatherAll rest (some shape) g

end

/-- The array that a number, an array or nested sequences of them stand for. -/
def Tensor.ofValue (v : Value) : Except Fault Tensor :=
  match v with
  | .tensor t => .ok t
  | v => do
    let (g, shape) ← gather v ⟨#[], .int⟩
    let _ ← checkedSize shape
    return ⟨g.data, shape, g.kind⟩

namespace Value

/-- What iteration over a value visits. -/
def iterate : Value → Except Fault (List Value)
  | .list items => .ok items.toList
  | .tuple items => .ok items
  | .str s => .ok (s.toList.map fun c => .str (String.singleton c))
  | .dict entries => .ok (entries.map (·.1))
  | .tensor t =>
    if t.shape.isEmpty then .error (.type (.notIterable (typeName (.tensor t)))) else .ok t.rows
  | v => .error (.type (.notIterable v.typeName))

/-- What iteration visits, an array's elements one by one. -/
def flatItems : Value → Except Fault (List Value)
  | .tensor t => .ok t.elements
  | v => v.iterate

end Value

end DocExamples.Script
